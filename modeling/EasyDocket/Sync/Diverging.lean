import EasyDocket.Sync.GitSite
import EasyDocket.Sync.Sending
import EasyDocket.Sync.Script

/-!
# Branches that diverge

A flush commits before it pushes, and a clone outlives the adapter.  Where a push is refused because another device
was faster, the commit stays, and the branch of the device and the one at the host have each what the other has not.
Histories only grow, so that this lasts: every later cycle of the device ends at its first listing, and nothing of what
it has pending is ever sent.
-/

namespace EasyDocket

open SyncService

variable {D β : Type}

/-! ## Histories grow -/

theorem not_comparable_mono {α : Type} {l l' r r' : List α} (hl : l <+: l') (hr : r <+: r') (h : ¬ l <+: r) (h' : ¬ r <+: l) :
    ¬ l' <+: r' ∧ ¬ r' <+: l' := by
  constructor
  · intro hp
    rcases List.prefix_or_prefix_of_prefix (hl.trans hp) hr with hlr | hrl
    · exact h hlr
    · exact h' hrl
  · intro hp
    rcases List.prefix_or_prefix_of_prefix hl (hr.trans hp) with hlr | hrl
    · exact h hlr
    · exact h' hrl

/-- The history at the host and that of the clone have only grown. -/
structure Repository.Extends (repo repo' : Repository β) : Prop where
  remote : repo.remote <+: repo'.remote
  branch : ∀ clone, repo.clone = some clone → ∃ clone', repo'.clone = some clone' ∧ clone.branch <+: clone'.branch

theorem Repository.Extends.refl (repo : Repository β) : repo.Extends repo :=
  ⟨List.prefix_refl _, fun clone h => ⟨clone, h, List.prefix_refl _⟩⟩

namespace GitAdapter

variable {host : GitHost β} {target : GitTarget} {repo repo' : Repository β} {clone clone' : Clone β}

theorem ensureClone_of_some (h : repo.clone = some clone) : ensureClone host repo = .ok clone := by
  unfold ensureClone
  rw [h]

theorem branch_checkout : (checkout host clone).2.branch = clone.branch := by
  unfold checkout
  split <;> rfl

theorem prefix_branch_sync (remote : History β) : clone.branch <+: (sync host remote clone).2.branch := by
  unfold sync
  split
  · rename_i h
    rw [branch_checkout]
    exact host.library.moved _ _ h
  · rw [branch_checkout]
  · exact List.prefix_refl _
  · exact List.prefix_refl _

/-- What has to be checked where only the clone of a device changes. -/
theorem extends_clone {staged : Finset ObjectName} (h : ensureClone host repo = .ok clone)
    (hb : clone.branch <+: clone'.branch) : repo.Extends { repo with clone := some clone', staged } where
  remote := List.prefix_refl _
  branch := by
    intro c hc
    have hcc : ensureClone host repo = .ok c := ensureClone_of_some hc
    cases hcc.symm.trans h
    exact ⟨clone', rfl, hb⟩

theorem extends_committed (h : repo.clone = some clone) : repo.Extends (committed host target repo clone) where
  remote := List.prefix_refl _
  branch := by
    intro c hc
    cases h.symm.trans hc
    exact ⟨_, rfl, List.prefix_append _ _⟩

/-- The step lemma for histories, of a call that is served. -/
theorem extends_serve (c : Call β) : repo.Extends (serve host target c repo).2 := by
  cases c with
  | list vault kind =>
    change repo.Extends (list host vault kind repo).2
    unfold list
    split
    · exact Repository.Extends.refl repo
    · rename_i clone h
      exact extends_clone h (prefix_branch_sync _)
  | get name =>
    change repo.Extends (get host name repo).2
    unfold get
    split
    · exact Repository.Extends.refl repo
    · rename_i clone h
      exact extends_clone h (List.prefix_refl _)
  | put name bytes =>
    change repo.Extends (put host name bytes repo).2
    unfold put
    split
    · exact Repository.Extends.refl repo
    · rename_i clone h
      exact extends_clone h (List.prefix_refl _)
  | remove name =>
    change repo.Extends (remove host name repo).2
    unfold remove
    split
    · exact Repository.Extends.refl repo
    · rename_i clone h
      split
      · exact extends_clone h (List.prefix_refl _)
      · exact extends_clone h (List.prefix_refl _)
  | flush =>
    change repo.Extends (flush host target repo).2
    unfold flush
    split_ifs
    · exact Repository.Extends.refl repo
    · cases hc : repo.clone with
      | none => exact Repository.Extends.refl repo
      | some clone =>
        have hgrown : repo.Extends (committed host target repo clone) := extends_committed hc
        dsimp only
        split_ifs with hpush
        · exact ⟨(host.library.accepts_iff _ _).mp hpush, hgrown.branch⟩
        · exact hgrown

theorem extends_mishap {c : Call β} (h : Mishap host target c repo repo') : repo.Extends repo' := by
  cases h with
  | untouched => exact Repository.Extends.refl repo
  | served => exact extends_serve c
  | begun _ _ h => exact ⟨List.prefix_refl _, fun c hc => nomatch h.symm.trans hc⟩
  | cloned _ _ clone h => exact extends_clone h (List.prefix_refl _)
  | partway vault kind _ clone branch index files h hbranch hfiles =>
    refine extends_clone h ?_
    rcases hbranch with rfl | ⟨hmoved, rfl⟩
    · exact List.prefix_refl _
    · exact host.library.moved _ _ hmoved
  | written name bytes _ clone h => exact extends_clone h (List.prefix_refl _)
  | unlinked name _ clone h => exact extends_clone h (List.prefix_refl _)
  | unpushed _ clone h hstaged => exact extends_committed h

end GitAdapter

namespace Git

/-- The history at the host and those of all clones have only grown. -/
structure Extends (g g' : Git D β) : Prop where
  remote : g.remote <+: g'.remote
  branch : ∀ d clone, g.clone d = some clone → ∃ clone', g'.clone d = some clone' ∧ clone.branch <+: clone'.branch

theorem Extends.refl (g : Git D β) : g.Extends g :=
  ⟨List.prefix_refl _, fun _ clone h => ⟨clone, h, List.prefix_refl _⟩⟩

theorem Extends.trans {g g' g'' : Git D β} (h : g.Extends g') (h' : g'.Extends g'') : g.Extends g'' where
  remote := h.remote.trans h'.remote
  branch := by
    intro d clone hc
    obtain ⟨clone', hc', hp⟩ := h.branch d clone hc
    obtain ⟨clone'', hc'', hp'⟩ := h'.branch d clone' hc'
    exact ⟨clone'', hc'', hp.trans hp'⟩

theorem extends_connect [DecidableEq D] (g : Git D β) (d : D) : g.Extends (g.connect d) :=
  ⟨List.prefix_refl _, fun _ clone h => ⟨clone, h, List.prefix_refl _⟩⟩

theorem extends_withRepository [DecidableEq D] {g : Git D β} {d : D} {repo : Repository β}
    (h : (g.repository d).Extends repo) : g.Extends (g.withRepository d repo) where
  remote := h.remote
  branch := by
    intro d' clone hc
    by_cases hd : d' = d
    · subst hd
      rw [withRepository_clone_self]
      exact h.branch clone hc
    · rw [withRepository_clone_ne g repo hd]
      exact ⟨clone, hc, List.prefix_refl _⟩

/-- The branch of a device and the one at the host have each what the other has not. -/
def Diverged (g : Git D β) (d : D) : Prop :=
  ∃ clone, g.clone d = some clone ∧ ¬ clone.branch <+: g.remote ∧ ¬ g.remote <+: clone.branch

theorem Diverged.extends {g g' : Git D β} {d : D} (h : g.Diverged d) (hg : g.Extends g') : g'.Diverged d := by
  obtain ⟨clone, hc, hl, hr⟩ := h
  obtain ⟨clone', hc', hp⟩ := hg.branch d clone hc
  exact ⟨clone', hc', not_comparable_mono hp hg.remote hl hr⟩

end Git

/-! ## Runs -/

section Runs

variable [DecidableEq D] {V : Vault D} {host : GitHost β} {target : D → GitTarget} {d : D}
  {s s' : Store D β (Git D β)} {c c' : State D β (Git D β)}

theorem extends_served {q : Request β} {r : Except SyncError q.Reply} (h : Served (gitSite host target) d q s r s') :
    s.dest.Extends s'.dest := by
  rcases h with ⟨wall, coin, h⟩ | h
  · cases q with
    | call call =>
      obtain ⟨-, rfl⟩ := Prod.mk.inj h
      exact Git.extends_withRepository (GitAdapter.extends_serve call)
    | query query =>
      obtain ⟨-, rfl⟩ := Prod.mk.inj h
      exact Git.Extends.refl _
  · cases h with
    | failed call s dest retryable h =>
      obtain ⟨repo, hmis, rfl⟩ := h
      exact Git.extends_withRepository (GitAdapter.extends_mishap hmis)

/-- The step lemma for histories. -/
theorem extends_step (h : (world V (gitSite host target)).Step c c') : c.store.dest.Extends c'.store.dest := by
  cases h with
  | enter d h => exact Git.extends_connect _ d
  | ask d q k r s h hs => exact extends_served hs
  | done d a h => exact Git.Extends.refl _
  | failed d e h => exact Git.Extends.refl _
  | env s h =>
    obtain ⟨d, L, op, -, rfl⟩ := h.edited
    exact Git.Extends.refl _
  | crash d => exact Git.Extends.refl _

/-- In no run is a history rewritten: neither the one at the host nor that of a device that has a clone. -/
theorem histories_extend (h : (world V (gitSite host target)).Reach c c') :
    c.store.dest.remote <+: c'.store.dest.remote ∧
      ∀ d clone, c.store.dest.clone d = some clone →
        ∃ clone', c'.store.dest.clone d = some clone' ∧ clone.branch <+: clone'.branch := by
  have hext : c.store.dest.Extends c'.store.dest := by
    induction h with
    | refl => exact Git.Extends.refl _
    | tail _ hstep ih => exact ih.trans (extends_step hstep)
  exact ⟨hext.remote, hext.branch⟩

/-! ### A device that has diverged -/

/-- A program may list, and ask its device for the names that it has seen. -/
def Listing : Request β → Prop
  | .call (.list _ _) => True
  | .query .remoteNames => True
  | _ => False

/-- A listing fails. -/
def Unlisted (q : Request β) (r : Except SyncError q.Reply) : Prop :=
  ∀ v k, q = .call (.list v k) → ∃ e, r = .error e

/-- A cycle whose listings fail ends in error, and asks nothing else before. -/
theorem unlisted_runCycle (session : Session) :
    (runCycle session : Sync β Unit).Guarded Listing Unlisted (fun _ => False) := by
  refine Prog.Guarded.bind ?_
  refine Prog.Guarded.request trivial (fun seen _ => ?_)
  refine Prog.Guarded.bind ?_
  refine Prog.Guarded.request trivial (fun names h => ?_)
  obtain ⟨e, he⟩ := h session.vault .snapshot rfl
  cases he

theorem sync_of_diverged {clone : Clone β} {remote : History β} (hl : ¬ clone.branch <+: remote)
    (hr : ¬ remote <+: clone.branch) : GitAdapter.sync host remote clone = (.error (.transport true), clone) := by
  unfold GitAdapter.sync
  rw [host.library.refused _ _ hl hr]

theorem unlisted_of_diverged {g : Git D β} (h : g.Diverged d) (v : JsString) (k : ObjectKind) :
    ((gitSite host target).serve d (.list v k) g).1 = .error (.transport true) := by
  obtain ⟨clone, hc, hl, hr⟩ := h
  have hensure : GitAdapter.ensureClone host (g.repository d) = .ok clone := GitAdapter.ensureClone_of_some hc
  change (GitAdapter.list host v k (g.repository d)).1 = _
  unfold GitAdapter.list
  have hsync : GitAdapter.sync host (g.repository d).remote clone = (.error (.transport true), clone) :=
    sync_of_diverged hl hr
  rw [hensure]
  simp only [hsync]
  rfl

/-- Every stamp of `waiting` is pending on the device. -/
def Waiting (d : D) (waiting : Set Stamp) (s : Store D β (Git D β)) : Prop :=
  ∀ x ∈ waiting, ∃ o ∈ (s.device d).ledger.unsynced, o.hlc = x

/-- A device has diverged, has ended `n` cycles, and has not sent what was waiting. -/
structure Stuck (d : D) (n : ℕ) (waiting : Set Stamp) (s : Store D β (Git D β)) : Prop where
  diverged : s.dest.Diverged d
  finished : s.ghost.finished d = n
  waits : Waiting d waiting s

theorem waiting_edited {d' : D} {waiting : Set Stamp} {L : Ledger β} {op : Operation β} (h : Waiting d waiting s)
    (he : Ledger.Edited (V.deviceId d') (s.device d').ledger L op) : Waiting d waiting (s.afterEdit d' L op) := by
  by_cases hd : d = d'
  · subst hd
    intro x hx
    obtain ⟨o, ho, rfl⟩ := h x hx
    obtain ⟨holog, hs⟩ := Ledger.mem_unsynced.mp ho
    rw [afterEdit_device]
    by_cases hk : o.hlc = op.hlc
    · refine ⟨⟨op, false⟩, Ledger.mem_unsynced.mpr ⟨?_, rfl⟩, hk.symm⟩
      rw [he.oplog]
      exact Table.mem_put_self _ _
    · refine ⟨o, Ledger.mem_unsynced.mpr ⟨?_, hs⟩, rfl⟩
      rw [he.oplog]
      exact Table.mem_put.mpr (Or.inr ⟨holog, hk⟩)
  · unfold Waiting
    rw [afterEdit_ne hd]
    exact h

theorem waiting_restart {d' : D} {waiting : Set Stamp} (h : Waiting d waiting s) : Waiting d waiting (restart d' s) := by
  by_cases hd : d = d'
  · subst hd
    unfold Waiting
    rw [restart_device]
    exact h
  · unfold Waiting
    rw [restart_ne hd]
    exact h

/-- What other devices ask changes nothing on this one. -/
theorem device_served_ne {d' : D} {q : Request β} {r : Except SyncError q.Reply} (hd : d' ≠ d)
    (h : Served (gitSite host target) d' q s r s') : s'.device d = s.device d ∧ s'.ghost.finished = s.ghost.finished := by
  rcases h with ⟨wall, coin, h⟩ | h
  · cases q with
    | call call =>
      obtain ⟨-, rfl⟩ := Prod.mk.inj h
      exact ⟨rfl, rfl⟩
    | query query =>
      obtain ⟨-, rfl⟩ := Prod.mk.inj h
      exact ⟨afterQuery_ne (Ne.symm hd), rfl⟩
  · cases h
    exact ⟨rfl, rfl⟩

/-- What the diverged device asks and is told; of the others nothing is said. -/
theorem stuck_parties (V : Vault D) (host : GitHost β) (target : D → GitTarget) (d : D) (n : ℕ) (waiting : Set Stamp) :
    Threads.Parties (world V (gitSite host target)) (Stuck d n waiting) (fun d' q => d' = d → Listing q)
      (fun d' q r => d' = d → Unlisted q r) (fun d' _ => d' ≠ d) where
  body := by
    intro d'
    by_cases hd : d' = d
    · exact (unlisted_runCycle (V.session d')).imp (fun _ h _ => h) (fun _ _ h => h hd) (fun _ h => h.elim)
    · exact (Prog.guarded_trivial _).imp (fun _ _ h => absurd h hd) (fun _ _ _ => trivial) (fun _ _ => hd)
  enter := fun d' s h => ⟨h.diverged.extends (Git.extends_connect _ d'), h.finished, h.waits⟩
  step := by
    intro d' q s r s' h hmay hserved
    have hdiverged := h.diverged.extends (extends_served hserved)
    by_cases hd : d' = d
    · subst hd
      rcases hserved with ⟨wall, coin, hserve⟩ | hmis
      · cases q with
        | call call =>
          obtain ⟨rfl, rfl⟩ := Prod.mk.inj hserve
          refine ⟨⟨hdiverged, h.finished, h.waits⟩, fun _ v k hcall => ?_⟩
          cases hcall
          exact ⟨_, unlisted_of_diverged h.diverged v k⟩
        | query query =>
          obtain ⟨rfl, rfl⟩ := Prod.mk.inj hserve
          refine ⟨⟨hdiverged, h.finished, ?_⟩, fun _ v k hcall => nomatch hcall⟩
          cases query with
          | remoteNames =>
            unfold Waiting
            rw [afterQuery_device]
            exact h.waits
          | _ => exact absurd (hmay rfl) not_false
      · cases hmis
        exact ⟨⟨hdiverged, h.finished, h.waits⟩, fun _ v k _ => ⟨_, rfl⟩⟩
    · obtain ⟨hdevice, hfinished⟩ := device_served_ne hd hserved
      refine ⟨⟨hdiverged, (congrFun hfinished d).trans h.finished, ?_⟩, fun h => absurd h hd⟩
      unfold Waiting
      rw [hdevice]
      exact h.waits
  leave := by
    intro d' r s h hpost
    cases r with
    | error e => exact h
    | ok a => exact ⟨h.diverged, (Function.update_of_ne (Ne.symm (hpost a rfl)) _ _).trans h.finished, h.waits⟩
  env := by
    intro s s' h hedit
    obtain ⟨d', L, op, he, rfl⟩ := hedit.edited
    exact ⟨h.diverged, h.finished, waiting_edited h.waits he⟩
  crash := fun d' s h => ⟨h.diverged, h.finished, waiting_restart h.waits⟩

/-- Once its branch and that of the host have diverged, a device never again ends a cycle without error, and never sends
what it has pending. -/
theorem diverged_forever (h : (world V (gitSite host target)).Reach c c') (hd : c.store.dest.Diverged d)
    (hidle : c.running d = none) :
    c'.store.dest.Diverged d ∧ c'.store.ghost.finished d = c.store.ghost.finished d ∧
      ∀ o ∈ (c.store.device d).ledger.unsynced, ∃ o' ∈ (c'.store.device d).ledger.unsynced, o'.hlc = o.hlc := by
  have hstuck : Stuck d (c.store.ghost.finished d) {x | ∃ o ∈ (c.store.device d).ledger.unsynced, o.hlc = x} c.store :=
    ⟨hd, rfl, fun _ hx => hx⟩
  have hrun : ∀ d' p, c.running d' = some p →
      p.Guarded (fun q => d' = d → Listing q) (fun q r => d' = d → Unlisted q r) (fun _ => d' ≠ d) := by
    intro d' p hp
    by_cases hd' : d' = d
    · rw [hd', hidle] at hp
      cases hp
    · exact (Prog.guarded_trivial p).imp (fun _ _ h => absurd h hd') (fun _ _ _ => trivial) (fun _ _ => hd')
  obtain ⟨hafter, -⟩ := (stuck_parties V host target d _ _).reach hstuck hrun h
  exact ⟨hafter.diverged, hafter.finished, fun o ho => hafter.waits o.hlc ⟨o, ho, rfl⟩⟩

end Runs

/-! ### A push that is refused -/

instance [DecidableEq β] (g : Git D β) (d : D) : Decidable (g.Diverged d) :=
  decidable_of_iff (∃ clone ∈ g.clone d, ¬ clone.branch <+: g.remote ∧ ¬ g.remote <+: clone.branch) Iff.rfl

/-- A host with nothing but the branch. -/
def plainHost : GitHost Unit := ⟨GitLibrary.plain Unit, fun k => k, false⟩

abbrev gitTrio : Site Trio Unit (Git Trio Unit) := gitSite plainHost (fun _ => ⟨"", ""⟩)

abbrev GitState := State Trio Unit (Git Trio Unit)

/-- Two devices have listed, and the first to push is faster; the other edits again. -/
def raced : GitState :=
  [.put .a 5 .accounts (js "x") (), .put .b 3 .accounts (js "y") (), .begin .a, .begin .b, .ask .b 4 3, .finish .a 6,
    .finish .b 6, .put .b 7 .accounts (js "z") ()].foldl (play trio gitTrio) (start (Git.hosted Trio []))

/-- The slower one has run another cycle. -/
def racedAgain : GitState := [.begin .b, .finish .b 8].foldl (play trio gitTrio) raced

theorem histories_extend_raced : raced.store.dest.remote <+: racedAgain.store.dest.remote ∧ raced.store.dest.remote ≠ [] := by
  have hreach : (world trio gitTrio).Reach raced racedAgain := reach_play _
  exact ⟨(histories_extend hreach).1, by decide +kernel⟩

theorem diverged_forever_raced : racedAgain.store.ghost.finished .b = raced.store.ghost.finished .b ∧
    ∃ o ∈ (racedAgain.store.device .b).ledger.unsynced, o.entityId = js "z" := by
  have hreach : (world trio gitTrio).Reach raced racedAgain := reach_play _
  have hdiverged : raced.store.dest.Diverged .b := by decide +kernel
  have hidle : raced.running .b = none := rfl
  exact ⟨(diverged_forever hreach hdiverged hidle).2.1, by decide +kernel⟩

end EasyDocket
