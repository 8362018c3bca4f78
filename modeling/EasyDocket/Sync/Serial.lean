import EasyDocket.Sync.Diverging

/-!
# One device after the other

Where a cycle is not interrupted by another device's, a repository is as good as a map: every call is answered as the
map of what is published would answer it, and the flush publishes the map as the cycle has changed it, in one commit.
A listing is kept to where nothing is staged: what a fast-forward does with staged files is up to the library.
-/

namespace EasyDocket

open SyncService
open Prog (Ends)

variable {D β S : Type}

/-! ## Taking turns -/

section Turns

variable [DecidableEq D] (V : Vault D) (site : Site D β S)

/-- A request that is served over a working transport. -/
def Works (d : D) (q : Request β) (s : Store D β S) (r : Except SyncError q.Reply) (s' : Store D β S) : Prop :=
  ∃ wall coin, serve site d wall coin q s = (r, s')

/-- A device runs a cycle while all may edit, an edit, or a restart; `ok` says of a request when it may be asked, and
`left` how a cycle may end. -/
inductive Turn (ok : D → Request β → Store D β S → Prop) (left : D → Except SyncError Unit → Store D β S → Prop) :
    Store D β S → Store D β S → Prop
  | cycle (d : D) (r : Except SyncError Unit) (s s' : Store D β S)
    (h : Ends (fun q s r s' => Works site d q s r s' ∧ ok d q s) (Edit V) (runCycle (V.session d))
      ((world V site).enter d s) r s') (hleft : left d r s') :
    Turn ok left s ((world V site).leave d r s')
  | edit (s s' : Store D β S) (h : Edit V s s') : Turn ok left s s'
  | restart (d : D) (s : Store D β S) : Turn ok left s (restart d s)

/-- Any number of turns. -/
abbrev Turns (ok : D → Request β → Store D β S → Prop) (left : D → Except SyncError Unit → Store D β S → Prop) :
    Store D β S → Store D β S → Prop :=
  Relation.ReflTransGen (Turn V site ok left)

end Turns

section Turn

variable [DecidableEq D] {V : Vault D} {site : Site D β S} {ok : D → Request β → Store D β S → Prop}
  {left : D → Except SyncError Unit → Store D β S → Prop} {s s' : Store D β S}

/-- A turn is a run from where no cycle is under way to where none is. -/
theorem reach_turn (h : Turn V site ok left s s') : (world V site).Reach ⟨s, fun _ => none⟩ ⟨s', fun _ => none⟩ := by
  cases h with
  | cycle d r s s₁ hends hleft =>
    have hserved : Ends ((world V site).step d) (world V site).env (runCycle (V.session d)) ((world V site).enter d s) r s₁ := by
      obtain ⟨s₂, hends', rfl⟩ := Ends.simulate (R := Eq)
        (fun q r s s₁ t (hR : s = t) hs => ⟨s₁, hR ▸ Or.inl hs.1, rfl⟩) (fun s s₁ t hR he => ⟨s₁, hR ▸ he, rfl⟩) hends _ rfl
      exact hends'
    have hrun := Threads.reach_ends hserved ⟨_, Function.update (fun _ => none) d (some (runCycle (V.session d)))⟩ rfl
      (Function.update_self (f := fun _ : D => (none : Option (Sync β Unit))) ..)
    simp only [Function.update_idem] at hrun
    have hidle : Function.update (fun _ => none) d none = fun _ : D => (none : Option (Sync β Unit)) :=
      Function.update_eq_self_iff.mpr rfl
    rw [hidle] at hrun
    exact Relation.ReflTransGen.head (Threads.Step.enter _ d rfl) hrun
  | edit s s' h => exact Relation.ReflTransGen.single (Threads.Step.env _ _ h)
  | restart d s =>
    have hcrash := Threads.Step.crash (T := world V site) ⟨s, fun _ => none⟩ d
    have hidle : Function.update (fun _ => none) d none = fun _ : D => (none : Option (Sync β Unit)) :=
      Function.update_eq_self_iff.mpr rfl
    rw [hidle] at hcrash
    exact Relation.ReflTransGen.single hcrash

end Turn

/-! ## One clone -/

/-- A clone at rest: some of the published history, and nothing else. -/
structure Clone.Tidy (remote : History β) (clone : Clone β) : Prop where
  published : clone.branch <+: remote
  index : clone.index = clone.branch.tree
  files : clone.files = clone.branch.tree

/-- Nothing is staged, and a clone that was made before anything was published has not been overtaken. -/
structure Repository.Listable (repo : Repository β) : Prop where
  staged : repo.staged = ∅
  born : ∀ clone, repo.clone = some clone → clone.branch = [] → repo.remote = []

/-- Between cycles: the map is what is published. -/
structure Repository.Rests (repo : Repository β) (m : ObjectMap β) : Prop where
  tidy : ∀ clone, repo.clone = some clone → clone.Tidy repo.remote
  published : m = repo.remote.tree

/-- In a cycle that has listed: the map is what the clone has in its index and its files. -/
structure Repository.Holds (repo : Repository β) (m : ObjectMap β) : Prop where
  clone : repo.clone = some ⟨repo.remote, m, m⟩
  published : repo.staged = ∅ → m = repo.remote.tree

theorem Repository.Holds.rests {repo : Repository β} {m : ObjectMap β} (h : repo.Holds m) (hs : repo.staged = ∅) :
    repo.Rests m where
  tidy := by
    intro clone hc
    cases h.clone.symm.trans hc
    exact ⟨List.prefix_refl _, h.published hs, h.published hs⟩
  published := h.published hs

namespace GitAdapter

variable {host : GitHost β} {target : GitTarget} {repo : Repository β} {clone : Clone β} {m : ObjectMap β}

/-- A tidy clone is brought to what is published. -/
theorem sync_tidy {remote : History β} (h : clone.Tidy remote) (hborn : clone.branch = [] → remote = []) :
    sync host remote clone = (.ok (), ⟨remote, remote.tree, remote.tree⟩) := by
  obtain ⟨branch, index, files⟩ := clone
  have hp : branch <+: remote := h.published
  have hindex : index = History.tree branch := h.index
  have hfiles : files = History.tree branch := h.files
  subst hindex
  subst hfiles
  change branch = [] → remote = [] at hborn
  unfold sync
  by_cases hremote : remote = []
  · subst hremote
    cases List.prefix_nil.mp hp
    rw [host.library.missing]
  · have hbranch : branch ≠ [] := fun h => hremote (hborn h)
    rcases host.library.behind branch remote hbranch hp with hmoved | ⟨hkept, rfl⟩
    · rw [hmoved]
      unfold checkout
      dsimp only
      rw [host.library.checkout_clean]
    · rw [hkept]
      unfold checkout
      dsimp only
      rw [host.library.checkout_clean]

/-- The clone a listing begins with. -/
theorem ensureClone_tidy (h : repo.Rests m) (hl : repo.Listable) (hhost : host.otherBranches = false ∨ repo.remote ≠ []) :
    ∃ clone, ensureClone host repo = .ok clone ∧ clone.Tidy repo.remote ∧ (clone.branch = [] → repo.remote = []) := by
  cases hc : repo.clone with
  | some clone => exact ⟨clone, ensureClone_of_some hc, h.tidy clone hc, hl.born clone hc⟩
  | none =>
    unfold ensureClone
    rw [hc]
    cases ht : repo.remote.getLast? with
    | some commit =>
      have htree : repo.remote.tree = commit.tree := by
        unfold History.tree
        rw [ht]
      exact ⟨_, rfl, ⟨List.prefix_refl _, htree.symm, htree.symm⟩, id⟩
    | none =>
      have hremote : repo.remote = [] := List.getLast?_eq_none_iff.mp ht
      have hother : host.otherBranches = false := hhost.resolve_right (not_not_intro hremote)
      refine ⟨⟨[], Table.empty, Table.empty⟩, ?_, ⟨List.nil_prefix, rfl, rfl⟩, fun _ => hremote⟩
      dsimp only
      rw [hother]
      rfl

/-- A listing brings the clone up to date. -/
theorem list_rests (h : repo.Rests m) (hl : repo.Listable) (hhost : host.otherBranches = false ∨ repo.remote ≠ [])
    (v : JsString) (k : ObjectKind) :
    (list host v k repo).1 = .ok (m.list v k) ∧ (list host v k repo).2.Holds m ∧
      repo.remote <+: (list host v k repo).2.remote := by
  obtain ⟨clone, hensure, htidy, hborn⟩ := ensureClone_tidy h hl hhost
  have hsync : sync host repo.remote clone = (.ok (), ⟨repo.remote, repo.remote.tree, repo.remote.tree⟩) :=
    sync_tidy htidy hborn
  unfold list
  rw [hensure]
  dsimp only
  rw [hsync, ← h.published]
  exact ⟨rfl, ⟨rfl, fun _ => h.published⟩, List.prefix_refl _⟩

/-- A call that is not a listing is answered as the map answers it. -/
theorem serve_holds (host : GitHost β) (target : GitTarget) (h : repo.Holds m) (c : Call β) (hc : ∀ v k, c ≠ .list v k) :
    (serve host target c repo).1 = (ObjectMap.serve c m).1 ∧ (serve host target c repo).2.Holds (ObjectMap.serve c m).2 ∧
      repo.remote <+: (serve host target c repo).2.remote := by
  have hensure : ensureClone host repo = .ok ⟨repo.remote, m, m⟩ := ensureClone_of_some h.clone
  cases c with
  | list v k => exact absurd rfl (hc v k)
  | get name =>
    change (get host name repo).1 = _ ∧ (get host name repo).2.Holds m ∧ _ <+: (get host name repo).2.remote
    unfold get
    rw [hensure]
    exact ⟨rfl, ⟨rfl, h.published⟩, List.prefix_refl _⟩
  | put name bytes =>
    change (put host name bytes repo).1 = .ok () ∧ (put host name bytes repo).2.Holds (m.put (name, bytes)) ∧
      _ <+: (put host name bytes repo).2.remote
    unfold put
    rw [hensure]
    exact ⟨rfl, ⟨rfl, fun hs => absurd hs (Finset.insert_ne_empty _ _)⟩, List.prefix_refl _⟩
  | remove name =>
    change (remove host name repo).1 = .ok () ∧ (remove host name repo).2.Holds (m.delete name) ∧
      _ <+: (remove host name repo).2.remote
    unfold remove
    rw [hensure]
    dsimp only
    cases hg : m.get? name with
    | none =>
      have hsame : m.delete name = m := by
        refine Table.ext_mem (fun p => ?_)
        rw [Table.mem_delete]
        exact ⟨And.left, fun hp => ⟨hp, Table.get?_eq_none.mp hg p hp⟩⟩
      rw [hsame]
      exact ⟨rfl, ⟨rfl, h.published⟩, List.prefix_refl _⟩
    | some p => exact ⟨rfl, ⟨rfl, fun hs => absurd hs (Finset.insert_ne_empty _ _)⟩, List.prefix_refl _⟩
  | flush =>
    change (flush host target repo).1 = .ok () ∧ (flush host target repo).2.Holds m ∧
      _ <+: (flush host target repo).2.remote
    unfold flush
    split_ifs with hs
    · exact ⟨rfl, h, List.prefix_refl _⟩
    · rw [h.clone]
      have hpush : host.library.accepts (repo.remote ++ [commit host target repo ⟨repo.remote, m, m⟩]) repo.remote = true :=
        (host.library.accepts_iff _ _).mpr (List.prefix_append _ _)
      have htip := History.tree_append repo.remote (commit host target repo ⟨repo.remote, m, m⟩)
      dsimp only
      rw [if_pos hpush]
      exact ⟨rfl, ⟨rfl, fun _ => htip.symm⟩, List.prefix_append _ _⟩

theorem staged_of_flush (h : (flush host target repo).1 = .ok ()) : (flush host target repo).2.staged = ∅ := by
  unfold flush at h ⊢
  split_ifs with hs
  · exact hs
  · rw [if_neg hs] at h
    cases hc : repo.clone with
    | none =>
      rw [hc] at h
      cases h
    | some clone =>
      rw [hc] at h
      dsimp only at h ⊢
      split_ifs at h ⊢
      rfl

end GitAdapter

/-! ## A repository and a map side by side -/

section Both

variable [DecidableEq D] {V : Vault D} {host : GitHost β} {target : D → GitTarget} {d : D}
  {s s' : Store D β (Git D β)} {t : Store D β (ObjectMap β)}

/-- The devices are the same. -/
structure Matches (s : Store D β (Git D β)) (t : Store D β (ObjectMap β)) : Prop where
  device : s.device = t.device
  authored : s.ghost.authored = t.ghost.authored
  finished : s.ghost.finished = t.ghost.finished

/-- No device is in a cycle: the map is what is published, and the clones are tidy. -/
structure AtRest (host : GitHost β) (g : Git D β) (m : ObjectMap β) : Prop where
  tidy : ∀ d clone, g.clone d = some clone → clone.Tidy g.remote
  published : m = g.remote.tree
  hosted : host.otherBranches = false ∨ g.remote ≠ []

/-- Device `d` is in a cycle, and has listed. -/
structure InTurn (host : GitHost β) (d : D) (g : Git D β) (m : ObjectMap β) : Prop where
  others : ∀ d' clone, d' ≠ d → g.clone d' = some clone → clone.Tidy g.remote
  own : (g.repository d).Holds m
  hosted : host.otherBranches = false ∨ g.remote ≠ []

theorem Clone.Tidy.mono {clone : Clone β} {remote remote' : History β} (h : clone.Tidy remote) (hp : remote <+: remote') :
    clone.Tidy remote' := ⟨h.published.trans hp, h.index, h.files⟩

omit [DecidableEq D] in
theorem hosted_mono {g g' : Git D β} (h : host.otherBranches = false ∨ g.remote ≠ []) (hp : g.remote <+: g'.remote) :
    host.otherBranches = false ∨ g'.remote ≠ [] :=
  h.imp_right (fun hne hnil => hne (List.prefix_nil.mp (hnil ▸ hp)))

theorem InTurn.atRest {g : Git D β} {m : ObjectMap β} (h : InTurn host d g m) (hs : g.staged d = ∅) : AtRest host g m where
  tidy := by
    intro d' clone hc
    by_cases hd : d' = d
    · subst hd
      exact (h.own.rests hs).tidy clone hc
    · exact h.others d' clone hd hc
  published := (h.own.rests hs).published
  hosted := h.hosted

/-- A call over the repository whose clone holds the map. -/
theorem InTurn.serve (target : D → GitTarget) {g : Git D β} {m : ObjectMap β} (h : InTurn host d g m) (c : Call β) (hc : ∀ v k, c ≠ .list v k) :
    ((gitSite host target).serve d c g).1 = (ObjectMap.serve c m).1 ∧
      InTurn host d ((gitSite host target).serve d c g).2 (ObjectMap.serve c m).2 := by
  obtain ⟨hreply, hholds, hp⟩ := GitAdapter.serve_holds host (target d) h.own c hc
  refine ⟨hreply, fun d' clone hd hclone => ?_, ?_, hosted_mono h.hosted hp⟩
  · have hold := (Git.withRepository_clone_ne g (GitAdapter.serve host (target d) c (g.repository d)).2 hd).symm.trans hclone
    exact (h.others d' clone hd hold).mono hp
  · change ((g.withRepository d (GitAdapter.serve host (target d) c (g.repository d)).2).repository d).Holds _
    rw [Git.withRepository_self]
    exact hholds

/-- A listing at rest. -/
theorem AtRest.list (target : D → GitTarget) {g : Git D β} {m : ObjectMap β} (h : AtRest host g m) (hl : (g.repository d).Listable) (v : JsString)
    (k : ObjectKind) : ((gitSite host target).serve d (.list v k) g).1 = .ok (m.list v k) ∧
      InTurn host d ((gitSite host target).serve d (.list v k) g).2 m := by
  have hrests : (g.repository d).Rests m := ⟨h.tidy d, h.published⟩
  obtain ⟨hreply, hholds, hp⟩ := GitAdapter.list_rests hrests hl h.hosted v k
  refine ⟨hreply, fun d' clone hd hclone => ?_, ?_, ?_⟩
  · have hold := (Git.withRepository_clone_ne g (GitAdapter.list host v k (g.repository d)).2 hd).symm.trans hclone
    exact (h.tidy d' clone hold).mono hp
  · change ((g.withRepository d (GitAdapter.list host v k (g.repository d)).2).repository d).Holds m
    rw [Git.withRepository_self]
    exact hholds
  · exact hosted_mono h.hosted hp

/-- A query is answered alike. -/
theorem Matches.query (h : Matches s t) {q : Query β} {r : Except SyncError q.Reply}
    (hw : Works (gitSite host target) d (.query q) s r s') :
    s'.dest = s.dest ∧ ∃ t', Works (mapSite D β) d (.query q) t r t' ∧ Matches s' t' ∧ t'.dest = t.dest := by
  obtain ⟨wall, coin, heq⟩ := hw
  obtain ⟨rfl, rfl⟩ := Prod.mk.inj heq
  refine ⟨rfl, t.afterQuery d q ((t.device d).answer wall coin q).2, ⟨wall, coin, by rw [h.device]; rfl⟩,
    ⟨?_, h.authored, h.finished⟩, rfl⟩
  change Function.update s.device d _ = Function.update t.device d _
  rw [h.device]

/-- A call that the destinations answer alike. -/
theorem Matches.call (h : Matches s t) {c : Call β} {r : Except SyncError c.Reply}
    (hreply : ((gitSite host target).serve d c s.dest).1 = (ObjectMap.serve c t.dest).1)
    (hw : Works (gitSite host target) d (.call c) s r s') :
    s'.dest = ((gitSite host target).serve d c s.dest).2 ∧
      ∃ t', Works (mapSite D β) d (.call c) t r t' ∧ Matches s' t' ∧ t'.dest = (ObjectMap.serve c t.dest).2 := by
  obtain ⟨wall, coin, heq⟩ := hw
  obtain ⟨rfl, rfl⟩ := Prod.mk.inj heq
  exact ⟨rfl, _, ⟨wall, coin, Prod.ext hreply.symm rfl⟩, ⟨h.device, h.authored, h.finished⟩, rfl⟩

/-- An edit is made alike. -/
theorem Matches.edit (h : Matches s t) (he : Edit V s s') :
    s'.dest = s.dest ∧ ∃ t', Edit V t t' ∧ Matches s' t' ∧ t'.dest = t.dest := by
  have after : ∀ (d : D) (L : Ledger β) (op : Operation β), Matches (s.afterEdit d L op) (t.afterEdit d L op) := by
    intro d L op
    refine ⟨?_, congrArg (insert op) h.authored, h.finished⟩
    change Function.update s.device d _ = Function.update t.device d _
    rw [h.device]
  cases he with
  | put d wall e id body L op hput =>
    exact ⟨rfl, _, Edit.put t d wall e id body L op (h.device ▸ hput), after d L op, rfl⟩
  | remove d wall e id L op hremove => exact ⟨rfl, _, Edit.remove t d wall e id L op (h.device ▸ hremove), after d L op, rfl⟩

/-- Restarts are alike. -/
theorem Matches.restart (h : Matches s t) (d : D) : Matches (restart d s) (restart d t) := by
  refine ⟨?_, h.authored, h.finished⟩
  change Function.update s.device d _ = Function.update t.device d _
  rw [h.device]

/-! ### One cycle -/

/-- A listing is asked where nothing is staged. -/
def Orderly (d : D) (q : Request β) (s : Store D β (Git D β)) : Prop :=
  ∀ v k, q = .call (.list v k) → (s.dest.repository d).Listable

/-- A cycle that fails has staged nothing yet. -/
def Unstaged (d : D) (r : Except SyncError Unit) (s : Store D β (Git D β)) : Prop :=
  ∀ e, r = .error e → s.dest.staged d = ∅

/-- What is asked of a repository in a cycle that is not interrupted. -/
abbrev OrderlyStep (host : GitHost β) (target : D → GitTarget) (d : D) (q : Request β) (s : Store D β (Git D β))
    (r : Except SyncError q.Reply) (s' : Store D β (Git D β)) : Prop :=
  Works (gitSite host target) d q s r s' ∧ Orderly d q s

/-- What is asked of the map. -/
abbrev MapStep (d : D) (q : Request β) (t : Store D β (ObjectMap β)) (r : Except SyncError q.Reply)
    (t' : Store D β (ObjectMap β)) : Prop :=
  Works (mapSite D β) d q t r t' ∧ True

/-- Nobody is in a cycle. -/
def Resting (host : GitHost β) (s : Store D β (Git D β)) (t : Store D β (ObjectMap β)) : Prop :=
  Matches s t ∧ AtRest host s.dest t.dest

/-- Device `d` is in a cycle. -/
def Turning (host : GitHost β) (d : D) (s : Store D β (Git D β)) (t : Store D β (ObjectMap β)) : Prop :=
  Matches s t ∧ InTurn host d s.dest t.dest

/-- Device `d` has ended its cycle. -/
def Rested (host : GitHost β) (d : D) (s : Store D β (Git D β)) (t : Store D β (ObjectMap β)) : Prop :=
  Matches s t ∧ (s.dest.staged d = ∅ → AtRest host s.dest t.dest)

theorem edit_both {I : Git D β → ObjectMap β → Prop} (h : Matches s t ∧ I s.dest t.dest) (he : Edit V s s') :
    ∃ t', Edit V t t' ∧ Matches s' t' ∧ I s'.dest t'.dest := by
  obtain ⟨hdest, t', he', hm, hdest'⟩ := h.1.edit he
  exact ⟨t', he', hm, by rw [hdest, hdest']; exact h.2⟩

theorem query_both {I : Git D β → ObjectMap β → Prop} (h : Matches s t ∧ I s.dest t.dest) {q : Query β}
    {r : Except SyncError q.Reply} (hs : OrderlyStep host target d (.query q) s r s') :
    ∃ t', MapStep d (.query q) t r t' ∧ Matches s' t' ∧ I s'.dest t'.dest := by
  obtain ⟨hdest, t', hw, hm, hdest'⟩ := h.1.query hs.1
  exact ⟨t', ⟨hw, trivial⟩, hm, by rw [hdest, hdest']; exact h.2⟩

theorem list_both (h : Resting host s t) {v : JsString} {k : ObjectKind}
    {r : Except SyncError (Call.list (β := β) v k).Reply} (hs : OrderlyStep host target d (.call (.list v k)) s r s') :
    ∃ t', MapStep d (.call (.list v k)) t r t' ∧ Turning host d s' t' := by
  obtain ⟨hreply, hturn⟩ := h.2.list target (hs.2 v k rfl) v k
  obtain ⟨hdest, t', hw, hm, hdest'⟩ := h.1.call hreply hs.1
  exact ⟨t', ⟨hw, trivial⟩, hm, by rw [hdest, hdest']; exact hturn⟩

/-- The step lemma of a cycle that has listed. -/
theorem step_both (h : Turning host d s t) {q : Request β} {r : Except SyncError q.Reply}
    (hs : OrderlyStep host target d q s r s') : ∃ t', MapStep d q t r t' ∧ Turning host d s' t' := by
  cases q with
  | query q => exact query_both h hs
  | call c =>
    by_cases hc : ∃ v k, c = .list v k
    · obtain ⟨v, k, rfl⟩ := hc
      exact list_both ⟨h.1, h.2.atRest (hs.2 v k rfl).staged⟩ hs
    · obtain ⟨hreply, hturn⟩ := h.2.serve target c (fun v k hvk => hc ⟨v, k, hvk⟩)
      obtain ⟨hdest, t', hw, hm, hdest'⟩ := h.1.call hreply hs.1
      exact ⟨t', ⟨hw, trivial⟩, hm, by rw [hdest, hdest']; exact hturn⟩

/-- A cycle over the repository, from its first request to its end, is one over the map. -/
theorem cycle_both {r : Except SyncError Unit} (h : Resting host s t)
    (hends : Ends (OrderlyStep host target d) (Edit V) (runCycle (V.session d)) s r s') :
    ∃ t', Ends (MapStep d) (Edit V) (runCycle (V.session d)) t r t' ∧ Rested host d s' t' := by
  have hedit : ∀ s s₁ t, Resting host s t → Edit V s s₁ → ∃ t₁, Edit V t t₁ ∧ Resting host s₁ t₁ :=
    fun _ _ _ hR he => edit_both hR he
  have hedit' : ∀ s s₁ t, Turning host d s t → Edit V s s₁ → ∃ t₁, Edit V t t₁ ∧ Turning host d s₁ t₁ :=
    fun _ _ _ hR he => edit_both hR he
  have hstep : ∀ q r s s₁ t, Turning host d s t → OrderlyStep host target d q s r s₁ →
      ∃ t₁, MapStep d q t r t₁ ∧ Turning host d s₁ t₁ := fun _ _ _ _ _ hR hs => step_both hR hs
  have hrested : ∀ s t, Resting host s t → Rested host d s t := fun _ _ hR => ⟨hR.1, fun _ => hR.2⟩
  -- the first request is a query, the second a listing
  refine Ends.simulate_ask hedit (fun r s s₁ t hR hs => query_both hR hs) ?_ hends t h
  intro names s₁ t₁ hR₁ hrest₁
  cases names with
  | error e =>
    obtain ⟨t', ht, hR'⟩ := Ends.simulate_throw hedit hrest₁ t₁ hR₁
    exact ⟨t', ht, hrested _ _ hR'⟩
  | ok seen =>
    refine Ends.simulate_ask hedit (fun r s s₁ t hR hs => list_both hR hs) ?_ hrest₁ t₁ hR₁
    intro snapshots s₂ t₂ hR₂ hrest₂
    obtain ⟨t', ht, hR'⟩ := Ends.simulate hstep hedit' hrest₂ t₂ hR₂
    exact ⟨t', ht, hR'.1, hR'.2.atRest⟩

theorem dest_edits (h : Relation.ReflTransGen (Edit V) s s') : s'.dest = s.dest := by
  induction h with
  | refl => rfl
  | tail _ he ih =>
    obtain ⟨d', L, op, -, rfl⟩ := he.edited
    exact ih

/-- A cycle that ends without error has flushed. -/
theorem staged_of_ok (hends : Ends (OrderlyStep host target d) (Edit V) (runCycle (V.session d)) s (.ok ()) s') :
    s'.dest.staged d = ∅ := by
  obtain ⟨e, he, -⟩ | ⟨_, s₁, -, hrest⟩ := Ends.of_bind hends
  · cases he
  obtain ⟨e, he, -⟩ | ⟨_, s₂, -, hrest⟩ := Ends.of_bind hrest
  · cases he
  obtain ⟨e, he, -⟩ | ⟨_, s₃, -, hrest⟩ := Ends.of_bind hrest
  · cases he
  obtain ⟨s₄, reply, s₅, -, ⟨⟨wall, coin, hflush⟩, -⟩, hrest⟩ := Ends.of_ask hrest
  obtain ⟨hreply, hafter⟩ := Prod.mk.inj hflush
  cases reply with
  | error e => exact nomatch (Ends.of_throw hrest).1
  | ok a =>
    have hstaged : s₅.dest.staged d = ∅ := by
      rw [← hafter]
      change Function.update s₄.dest.staged d (GitAdapter.flush host (target d) (s₄.dest.repository d)).2.staged d = ∅
      rw [Function.update_self]
      exact GitAdapter.staged_of_flush hreply
    rw [dest_edits (Ends.of_pure hrest).2]
    exact hstaged

/-! ### Runs in turns -/

/-- What a cycle does to a repository, from its beginning to its end, it does to the map. -/
theorem turn_both (h : Resting host s t) (hturn : Turn V (gitSite host target) Orderly Unstaged s s') :
    ∃ t', Turn V (mapSite D β) (fun _ _ _ => True) (fun _ _ _ => True) t t' ∧ Resting host s' t' := by
  cases hturn with
  | cycle d r s s₁ hends hleft =>
    have hentered : Resting host ((world V (gitSite host target)).enter d s) ((world V (mapSite D β)).enter d t) :=
      ⟨⟨h.1.device, h.1.authored, h.1.finished⟩, ⟨h.2.tidy, h.2.published, h.2.hosted⟩⟩
    obtain ⟨t₁, ht, hm, hrest⟩ := cycle_both hentered hends
    refine ⟨_, Turn.cycle d r t t₁ ht trivial, ?_⟩
    cases r with
    | error e => exact ⟨hm, hrest (hleft e rfl)⟩
    | ok a =>
      refine ⟨⟨hm.device, hm.authored, ?_⟩, hrest (staged_of_ok hends)⟩
      change Function.update s₁.ghost.finished d _ = Function.update t₁.ghost.finished d _
      rw [hm.finished]
  | edit s s' he =>
    obtain ⟨t', he', hR⟩ := edit_both h he
    exact ⟨t', Turn.edit t t' he', hR⟩
  | restart d s => exact ⟨_, Turn.restart d t, h.1.restart d, h.2⟩

/-- Devices that take turns at a repository are devices that take turns at a map: what the devices end up with is what a
run over a map leaves them, and what is published is that map. -/
theorem turns_refine {remote : History β} (hhost : host.otherBranches = false ∨ remote ≠ [])
    (h : Turns V (gitSite host target) Orderly Unstaged (Store.initial (Git.hosted D remote)) s) :
    ∃ t : Store D β (ObjectMap β), (world V (mapSite D β)).Reach (start remote.tree) ⟨t, fun _ => none⟩ ∧
      s.device = t.device ∧ s.ghost.finished = t.ghost.finished ∧ s.dest.remote.tree = t.dest ∧
      ∀ d clone, s.dest.clone d = some clone → clone.branch <+: s.dest.remote := by
  have hstart : Resting host (Store.initial (Git.hosted D remote)) (Store.initial remote.tree) :=
    ⟨⟨rfl, rfl, rfl⟩, ⟨fun _ _ hc => (nomatch hc), rfl, hhost⟩⟩
  have hruns : ∃ t, (world V (mapSite D β)).Reach (start remote.tree) ⟨t, fun _ => none⟩ ∧ Resting host s t := by
    induction h with
    | refl => exact ⟨_, Relation.ReflTransGen.refl, hstart⟩
    | tail _ hturn ih =>
      obtain ⟨t, hreach, hrest⟩ := ih
      obtain ⟨t', hturn', hrest'⟩ := turn_both hrest hturn
      exact ⟨t', hreach.trans (reach_turn hturn'), hrest'⟩
  obtain ⟨t, hreach, hm, hrest⟩ := hruns
  exact ⟨t, hreach, hm.device, hm.finished, hrest.published.symm, fun d clone hc => (hrest.tidy d clone hc).published⟩

end Both

/-! ### Two devices in turns -/

abbrev GitStore := Store Trio Unit (Git Trio Unit)

/-- The store after a cycle that nobody disturbs. -/
def takeTurn (d : Trio) (wall : ℕ) (s : GitStore) : GitStore :=
  (world trio gitTrio).leave d
    ((runCycle (trio.session d)).run (handler gitTrio d wall) ((world trio gitTrio).enter d s)).1
    ((runCycle (trio.session d)).run (handler gitTrio d wall) ((world trio gitTrio).enter d s)).2

/-- Whether a request is asked in order. -/
def orderly (d : Trio) (q : Request Unit) (s _ : GitStore) : Bool :=
  match q with
  | .call (.list _ _) => decide (s.dest.staged d = ∅) &&
      (s.dest.clone d).all (fun clone => !clone.branch.isEmpty || s.dest.remote.isEmpty)
  | _ => true

theorem orderly_spec {d : Trio} {q : Request Unit} {s s' : GitStore} (h : orderly d q s s' = true) : Orderly d q s := by
  rintro v k rfl
  obtain ⟨hstaged, hborn⟩ := Bool.and_eq_true_iff.mp h
  refine ⟨of_decide_eq_true hstaged, fun clone hc hb => ?_⟩
  have hclone : s.dest.clone d = some clone := hc
  rw [hclone] at hborn
  have hremote : s.dest.remote = [] := by simpa [hb] using hborn
  exact hremote

theorem turn_takeTurn {d : Trio} {wall : ℕ} {s : GitStore}
    (h : (runCycle (trio.session d)).meets (orderly d) (handler gitTrio d wall) ((world trio gitTrio).enter d s) = true)
    (hok : ((runCycle (trio.session d)).run (handler gitTrio d wall) ((world trio gitTrio).enter d s)).1.isOk = true) :
    Turn trio gitTrio Orderly Unstaged s (takeTurn d wall s) := by
  have hends : Ends (OrderlyStep plainHost (fun _ => ⟨"", ""⟩) d) (Edit trio) (runCycle (trio.session d))
      ((world trio gitTrio).enter d s) _ _ :=
    Prog.ends_run (fun q s hq => ⟨⟨fun _ => wall, 0, rfl⟩, orderly_spec hq⟩) _ _ h
  refine Turn.cycle d _ _ _ hends (fun e he => ?_)
  rw [he] at hok
  cases hok

/-- The store after an edit. -/
def written (d : Trio) (wall : ℕ) (id : JsString) (s : GitStore) : GitStore :=
  (play trio gitTrio ⟨s, fun _ => none⟩ (.put d wall .accounts id ())).store

theorem turns_written (d : Trio) (wall : ℕ) (id : JsString) (s : GitStore) :
    Turns trio gitTrio Orderly Unstaged s (written d wall id s) := by
  unfold written
  simp only [play]
  split
  · rename_i L op h
    exact Relation.ReflTransGen.single (Turn.edit _ _ (Edit.put s d wall .accounts id () L op h))
  · exact Relation.ReflTransGen.refl

/-- One device has published, and then the other. -/
def publishedTwo : GitStore :=
  takeTurn .b 7 (written .b 6 (js "y") (takeTurn .a 6 (written .a 5 (js "x") (Store.initial (Git.hosted Trio [])))))

theorem turns_refine_publishedTwo : ∃ t : Store Trio Unit (ObjectMap Unit),
    trioWorld.Reach trioStart ⟨t, fun _ => none⟩ ∧ publishedTwo.dest.remote.tree = t.dest ∧
      (t.device .b).ledger.oplog.rows.length = 2 ∧ publishedTwo.dest.remote.length = 2 := by
  have hturns : Turns trio gitTrio Orderly Unstaged (Store.initial (Git.hosted Trio [])) publishedTwo := by
    refine ((turns_written .a 5 (js "x") _).tail (turn_takeTurn ?_ ?_)).trans
      ((turns_written .b 6 (js "y") _).tail (turn_takeTurn ?_ ?_))
    · decide +kernel
    · decide +kernel
    · decide +kernel
    · decide +kernel
  obtain ⟨t, hreach, hdevice, -, hdest, -⟩ := turns_refine (Or.inl rfl) hturns
  have hrows : (publishedTwo.device .b).ledger.oplog.rows.length = 2 := by decide +kernel
  exact ⟨t, hreach, hdest, by rw [← hdevice]; exact hrows, by decide +kernel⟩

end EasyDocket
