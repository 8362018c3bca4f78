import EasyDocket.Sync.Diverging

/-!
# What a lost race leaves behind

The operations of a batch count as sent once they are put, and a put to a repository is only staged.  Where the flush
then loses the race, they are nowhere but in the clone of their device, and no cycle sends them again.  Here this is
followed through all later runs: no device but their author ever holds them.
-/

namespace EasyDocket

open SyncService
open Prog (Guarded)

variable {D β : Type} {x : Stamp}

/-! ## A stamp that is nowhere -/

/-- An operation with stamp `x`, or that leaves a row of that stamp. -/
def Operation.Mentions (x : Stamp) (op : Operation β) : Prop := op.hlc = x ∨ ∃ r, op.row = some r ∧ r.updatedAt = x

/-- None of the operations mentions `x`. -/
def Unmentioned (x : Stamp) (ops : List (Operation β)) : Prop := ∀ op ∈ ops, ¬ op.Mentions x

theorem mentions_rowOperation {device : JsString} {e : EntityName} {r : Row β} (h : r.updatedAt ≠ x) :
    ¬ (rowOperation device e r).Mentions x := by
  rintro (hx | ⟨r', hr, hx⟩)
  · exact h hx
  · cases hr
    exact h hx

/-- Neither log nor tables mention `x`. -/
structure Ledger.Lacks (x : Stamp) (L : Ledger β) : Prop where
  log : ∀ o ∈ L.oplog, ¬ o.toOperation.Mentions x
  rows : ∀ t r, L.rowAt t = some r → r.updatedAt ≠ x

namespace Ledger

variable {L L' : Ledger β}

/-- What has to be checked where one operation is logged. -/
theorem Lacks.logged (h : L.Lacks x) (op : LocalOperation β) (hop : ¬ op.toOperation.Mentions x)
    (hlog : L'.oplog = L.oplog.put op) (hrows : ∀ t r, L'.rowAt t = some r → op.row = some r ∨ L.rowAt t = some r) :
    L'.Lacks x where
  log := by
    intro o ho
    rw [hlog] at ho
    rcases Table.mem_put.mp ho with rfl | ⟨hold, -⟩
    · exact hop
    · exact h.log o hold
  rows := by
    intro t r hr
    rcases hrows t r hr with hnew | hold
    · exact fun hx => hop (Or.inr ⟨r, hnew, hx⟩)
    · exact h.rows t r hold

theorem Lacks.edited (h : L.Lacks x) {device : JsString} {op : Operation β} (he : Edited device L L' op)
    (hx : x.device ≠ device) : L'.Lacks x := by
  have hstamp : op.hlc ≠ x := by
    intro heq
    rw [he.stamp] at heq
    exact hx (heq ▸ rfl)
  refine h.logged ⟨op, false⟩ ?_ he.oplog (fun t r hr => ?_)
  · rintro (heq | ⟨r, hr, heq⟩)
    · exact hstamp heq
    · exact hstamp ((he.stamped r hr).symm.trans heq)
  · rw [he.rows] at hr
    split_ifs at hr
    · exact Or.inl hr
    · exact Or.inr hr

theorem rows_applyOperation {op : Operation β} (h : L.applyOperation op = some L') (t : EntityName × JsString) (r : Row β)
    (hr : L'.rowAt t = some r) : op.row = some r ∨ L.rowAt t = some r := by
  unfold applyOperation at h
  split at h
  · cases h
    rw [rowAt_deleteRow] at hr
    split_ifs at hr
    exact Or.inr hr
  · rename_i r' hput hvalue
    cases h
    rw [rowAt_putRow] at hr
    split_ifs at hr
    · exact Or.inl ((Operation.row_put hput).trans (hvalue.trans hr))
    · exact Or.inr hr
  · cases h

theorem oplog_applyOperation {op : Operation β} (h : L.applyOperation op = some L') : L'.oplog = L.oplog := by
  unfold applyOperation at h
  split at h
  · cases h
    rfl
  · cases h
    rfl
  · cases h

theorem Lacks.mergeOne (h : L.Lacks x) {n : ℕ} {op : Operation β} (hop : ¬ op.Mentions x) :
    (Ledger.mergeOne (L, n) op).1.Lacks x := by
  have happly : (mergeOne.apply (L, n) op).1.Lacks x := by
    unfold mergeOne.apply
    split
    · rename_i L' happlied
      refine h.logged ⟨op, true⟩ hop ?_ (fun t r hr => rows_applyOperation happlied t r hr)
      exact congrArg (fun log => Table.put log ⟨op, true⟩) (oplog_applyOperation happlied)
    · exact h
  unfold Ledger.mergeOne
  split
  · split_ifs
    · exact h
    · exact happly
  · exact happly

theorem Lacks.merge (h : L.Lacks x) {ops : List (Operation β)} (hops : Unmentioned x ops) : (L.merge ops).1.Lacks x := by
  have hfold : ∀ (ops : List (Operation β)) (acc : Ledger β × ℕ), acc.1.Lacks x → Unmentioned x ops →
      (ops.foldl Ledger.mergeOne acc).1.Lacks x := by
    intro ops
    induction ops with
    | nil => exact fun _ hacc _ => hacc
    | cons op ops ih =>
      exact fun acc hacc hops => ih _ (hacc.mergeOne (hops op List.mem_cons_self))
        (fun o ho => hops o (List.mem_cons_of_mem _ ho))
  unfold Ledger.merge
  split_ifs
  · exact h
  · have hfolded := hfold (ordered ops) (L, 0) h (fun o ho => hops o (mem_ordered.mp ho))
    exact ⟨hfolded.log, hfolded.rows⟩

theorem Lacks.markSynced (h : L.Lacks x) (stamps : List Stamp) : (L.markSynced stamps).Lacks x where
  log := by
    intro o ho
    obtain ⟨o', ho', rfl⟩ := mem_markSynced.mp ho
    exact h.log o' ho'
  rows := by
    intro t r hr
    unfold rowAt at hr
    rw [markSynced_tables] at hr
    exact h.rows t r hr

theorem Lacks.of_mem (h : L.Lacks x) {e : EntityName} {r : Row β} (hr : r ∈ L.tables e) : r.updatedAt ≠ x :=
  h.rows (e, r.id) r (Table.get?_eq_some.mpr ⟨hr, rfl⟩)

end Ledger

/-! ## Cycles that never hear of it -/

/-- A request that does not carry `x`. -/
def Silent (x : Stamp) : Request β → Prop
  | .call (.put _ bytes) => Unmentioned x bytes.operations
  | .query (.merge ops) => Unmentioned x ops
  | _ => True

/-- A reply that does not carry `x`. -/
def Deaf (x : Stamp) : (q : Request β) → Except SyncError q.Reply → Prop
  | .call (.get _), r => ∀ bytes : Envelope β, r = .ok bytes → Unmentioned x bytes.operations
  | .query .pendingOperations, r => ∀ ops : List (LocalOperation β), r = .ok ops → ∀ o ∈ ops, ¬ o.toOperation.Mentions x
  | .query (.readTable _), r => ∀ rows : List (Row β), r = .ok rows → ∀ row ∈ rows, row.updatedAt ≠ x
  | _, _ => True

/-- A program that does not carry `x` where it is not told of it. -/
abbrev Unaware {α : Type} (x : Stamp) (post : α → Prop) (p : Sync β α) : Prop := p.Guarded (Silent x) (Deaf x) post

section Programs

variable {session : Session}

theorem unaware_applySnapshot (seen : Finset ObjectName) :
    Unaware x (fun _ => True) (applySnapshot session seen : Sync β _) := by
  refine Guarded.request trivial (fun snapshots _ => ?_)
  split
  · exact trivial
  · rename_i newest _
    split_ifs
    · exact trivial
    refine Guarded.request trivial (fun bytes hbytes => ?_)
    have hops : Unmentioned x bytes.operations := hbytes bytes rfl
    unfold Envelope.operations at hops
    unfold openSnapshot
    cases hp : bytes.payload with
    | ops batch => exact trivial
    | snapshot value =>
      rw [hp] at hops
      refine Guarded.bind ?_
      dsimp only
      split_ifs
      · exact trivial
      refine Guarded.request trivial (fun _ _ => ?_)
      refine Guarded.request hops (fun _ _ => ?_)
      refine Guarded.request trivial (fun _ _ => ?_)
      refine Guarded.request trivial (fun _ _ => ?_)
      exact trivial

theorem unaware_download (acc : Download β) (name : ObjectName) (h : Unmentioned x acc.ops) :
    Unaware x (fun acc => Unmentioned x acc.ops) (download session acc name) := by
  refine Guarded.request trivial (fun bytes hbytes => ?_)
  have hops : Unmentioned x bytes.operations := hbytes bytes rfl
  unfold Envelope.operations at hops
  unfold openBatch
  cases hp : bytes.payload with
  | snapshot value => exact trivial
  | ops batch =>
    rw [hp] at hops
    refine Guarded.bind ?_
    dsimp only
    split_ifs
    · exact h
    · exact h
    · intro o ho
      rcases List.mem_append.mp ho with ho | ho
      · exact h o ho
      · exact hops o ho

theorem unaware_pull : Unaware x (fun _ => True) (pull session : Sync β ℕ) := by
  refine Guarded.request trivial (fun seen _ => ?_)
  refine Guarded.bind ((unaware_applySnapshot seen).mono ?_)
  rintro ⟨watermark, seen⟩ -
  refine Guarded.request trivial (fun remote _ => ?_)
  have hfresh : ∀ fresh, Unaware x (fun _ => True) (pullFresh session fresh : Sync β ℕ) := by
    intro fresh
    unfold pullFresh
    split_ifs
    · exact trivial
    refine Guarded.bind ?_
    refine (Guarded.foldlM (fun acc : Download β => Unmentioned x acc.ops) fresh ⟨[], [], []⟩
      (fun _ ho => absurd ho List.not_mem_nil) (fun acc name _ h => unaware_download acc name h)).mono ?_
    intro got hgot
    refine Guarded.request trivial (fun _ _ => ?_)
    refine Guarded.request hgot (fun _ _ => ?_)
    refine Guarded.request trivial (fun _ _ => ?_)
    exact trivial
  dsimp only
  split_ifs
  · exact Guarded.request trivial (fun _ _ => hfresh _)
  · exact hfresh _

theorem unaware_push : Unaware x (fun _ => True) (push session : Sync β ℕ) := by
  refine Guarded.request trivial (fun (pending : List (LocalOperation β)) hpending => ?_)
  have hops : ∀ o ∈ pending, ¬ o.toOperation.Mentions x := hpending pending rfl
  refine Guarded.foldlM (fun _ => True) _ 0 trivial (fun pushed slice hslice _ => ?_)
  unfold pushSlice
  split
  · exact trivial
  · refine Guarded.bind (Guarded.request trivial (fun iv _ => ?_))
    have hsealed : Unmentioned x (slice.map LocalOperation.toOperation) := by
      intro o ho
      obtain ⟨o', ho', rfl⟩ := List.mem_map.mp ho
      exact hops o' (mem_of_mem_slices hslice o' ho')
    refine Guarded.request hsealed (fun _ _ => ?_)
    refine Guarded.request trivial (fun _ _ => ?_)
    refine Guarded.request trivial (fun _ _ => ?_)
    exact trivial

theorem unaware_prune (watermark : Stamp) : Unaware x (fun _ => True) (prune session watermark : Sync β Unit) := by
  refine Guarded.tryCatch (Guarded.bind ?_) (fun _ => trivial)
  have hremoves : ∀ names : List ObjectName, Unaware x (fun _ => True) (names.foldlM removeOne () : Sync β Unit) := by
    intro names
    refine Guarded.foldlM (fun _ => True) names () trivial (fun _ name _ _ => ?_)
    refine Guarded.request trivial (fun _ _ => ?_)
    exact Guarded.request_last trivial (fun _ _ => trivial)
  refine Guarded.request trivial (fun first _ => ?_)
  dsimp only
  split_ifs
  · refine Guarded.request trivial (fun _ _ => ?_)
    refine Guarded.request trivial (fun _ _ => ?_)
    exact hremoves _
  · refine Guarded.request trivial (fun _ _ => ?_)
    refine Guarded.request trivial (fun _ _ => ?_)
    exact hremoves _

theorem unaware_maybeSnapshot : Unaware x (fun _ => True) (maybeSnapshot session : Sync β Unit) := by
  refine Guarded.request trivial (fun last _ => ?_)
  refine Guarded.request trivial (fun since _ => ?_)
  split_ifs
  · exact trivial
  refine Guarded.request trivial (fun operations _ => ?_)
  split
  · exact trivial
  refine Guarded.bind ?_
  refine (Guarded.foldlM (fun entities : EntityName → List (Row β) => ∀ e, ∀ r ∈ entities e, r.updatedAt ≠ x) _ _
    (fun _ _ hr => absurd hr List.not_mem_nil) (fun entities e _ h => ?_)).mono ?_
  · refine Guarded.request trivial (fun (rows : List (Row β)) hrows => ?_)
    intro e' r hr
    by_cases he : e' = e
    · subst he
      rw [Function.update_self] at hr
      exact hrows rows rfl r hr
    · rw [Function.update_of_ne he] at hr
      exact h e' r hr
  · intro entities hentities
    refine Guarded.bind (Guarded.request trivial (fun iv _ => ?_))
    refine Guarded.request ?_ (fun _ _ => ?_)
    · intro o ho
      obtain ⟨e, -, ho⟩ := List.mem_flatMap.mp ho
      obtain ⟨r, hr, rfl⟩ := List.mem_map.mp ho
      exact mentions_rowOperation (hentities e r hr)
    · refine Guarded.request trivial (fun _ _ => ?_)
      refine Guarded.request trivial (fun _ _ => ?_)
      exact unaware_prune _

theorem unaware_runCycle (session : Session) : Unaware x (fun _ => True) (runCycle session : Sync β Unit) := by
  refine Guarded.bind (unaware_pull.mono (fun _ _ => ?_))
  refine Guarded.bind (unaware_push.mono (fun _ _ => ?_))
  refine Guarded.bind (unaware_maybeSnapshot.mono (fun _ _ => ?_))
  exact Guarded.request_last trivial (fun _ _ => trivial)

end Programs

/-! ## Calls that publish nothing -/

namespace GitAdapter

variable {host : GitHost β} {target : GitTarget} {repo repo' : Repository β}

/-- Only a flush changes what is published. -/
theorem remote_serve {c : Call β} (hc : c ≠ .flush) : (serve host target c repo).2.remote = repo.remote := by
  cases c with
  | list vault kind =>
    change (list host vault kind repo).2.remote = repo.remote
    unfold list
    split <;> rfl
  | get name =>
    change (get host name repo).2.remote = repo.remote
    unfold get
    split <;> rfl
  | put name bytes =>
    change (put host name bytes repo).2.remote = repo.remote
    unfold put
    split <;> rfl
  | remove name =>
    change (remove host name repo).2.remote = repo.remote
    unfold remove
    split
    · rfl
    · split <;> rfl
  | flush => exact absurd rfl hc

theorem remote_mishap {c : Call β} (hc : c ≠ .flush) (h : Mishap host target c repo repo') : repo'.remote = repo.remote := by
  cases h with
  | served => exact remote_serve hc
  | unpushed => exact absurd rfl hc
  | _ => rfl

end GitAdapter

/-! ## The system -/

section System

variable [DecidableEq D] {V : Vault D} {host : GitHost β} {target : D → GitTarget} {d : D}
  {s s' : Store D β (Git D β)} {c c' : State D β (Git D β)}

/-- Nothing that is published, and nothing another device has, mentions `x`. -/
structure OnlyOn (d : D) (x : Stamp) (s : Store D β (Git D β)) : Prop where
  published : ∀ p ∈ s.dest.remote.objects, Unmentioned x p.2.operations
  reached : ∀ d', d' ≠ d → ∀ p ∈ (s.dest.repository d').objects, Unmentioned x p.2.operations
  ledgers : ∀ d', d' ≠ d → (s.device d').ledger.Lacks x

/-- What a device can reach after another has worked on its clone. -/
theorem mem_repository_of_ne {g : Git D β} {d' d'' : D} {repo : Repository β} {p : ObjectName × Envelope β} (hd : d'' ≠ d')
    (hp : p ∈ ((g.withRepository d' repo).repository d'').objects) :
    p ∈ repo.remote.objects ∨ p ∈ (g.repository d'').objects := by
  rcases hp with hp | ⟨clone, hc, hp⟩
  · exact Or.inl hp
  · exact Or.inr (Or.inr ⟨clone, (Git.withRepository_clone_ne g repo hd).symm.trans hc, hp⟩)

/-- A step of the diverged device, which publishes nothing. -/
theorem OnlyOn.own (h : OnlyOn d x s) {repo : Repository β} (hr : repo.remote = s.dest.remote)
    (hdest : s'.dest = s.dest.withRepository d repo) (hdevice : s'.device = s.device) : OnlyOn d x s' where
  published := by
    rw [hdest, Git.withRepository_remote, hr]
    exact h.published
  reached := by
    intro d' hd p hp
    rw [hdest] at hp
    rcases mem_repository_of_ne hd hp with hp | hp
    · rw [hr] at hp
      exact h.published p hp
    · exact h.reached d' hd p hp
  ledgers := by
    rw [hdevice]
    exact h.ledgers

/-- A call of another device, that brings nothing but what it puts. -/
theorem OnlyOn.other (h : OnlyOn d x s) {d' : D} (hd : d' ≠ d) {call : Call β} {repo : Repository β}
    (hcall : Silent x (.call call))
    (hbrings : ∀ p ∈ repo.objects, p ∈ (s.dest.repository d').objects ∨ call = .put p.1 p.2)
    (hdest : s'.dest = s.dest.withRepository d' repo) (hdevice : s'.device = s.device) : OnlyOn d x s' := by
  have hrepo : ∀ p ∈ repo.objects, Unmentioned x p.2.operations := by
    intro p hp
    rcases hbrings p hp with hp | rfl
    · exact h.reached d' hd p hp
    · exact hcall
  refine ⟨?_, fun d'' hd'' p hp => ?_, ?_⟩
  · rw [hdest]
    exact fun p hp => hrepo p (Or.inl hp)
  · rw [hdest] at hp
    by_cases hsame : d'' = d'
    · subst hsame
      rw [Git.withRepository_self] at hp
      exact hrepo p hp
    · rcases mem_repository_of_ne hsame hp with hp | hp
      · exact hrepo p (Or.inl hp)
      · exact h.reached d'' hd'' p hp
  · rw [hdevice]
    exact h.ledgers

/-- What has to be checked where only one device changes. -/
theorem OnlyOn.update (h : OnlyOn d x s) {d' : D} (hdest : s'.dest = s.dest)
    (hne : ∀ d'', d'' ≠ d' → s'.device d'' = s.device d'')
    (hself : d' ≠ d → (s.device d').ledger.Lacks x → (s'.device d').ledger.Lacks x) : OnlyOn d x s' := by
  refine ⟨by rw [hdest]; exact h.published, by rw [hdest]; exact h.reached, fun d'' hd'' => ?_⟩
  by_cases hsame : d'' = d'
  · subst hsame
    exact hself hd'' (h.ledgers d'' hd'')
  · rw [hne d'' hsame]
    exact h.ledgers d'' hd''

theorem lacks_answer {dev : Device β} (h : dev.ledger.Lacks x) (wall : ℕ → ℕ) (coin : ℕ) {q : Query β}
    (hq : Silent x (.query q)) : (dev.answer wall coin q).2.ledger.Lacks x ∧ Deaf x (.query q) (dev.answer wall coin q).1 := by
  cases q with
  | merge ops => exact ⟨h.merge hq, trivial⟩
  | markSynced stamps => exact ⟨h.markSynced stamps, trivial⟩
  | observeStamps stamps => exact ⟨⟨h.log, h.rows⟩, trivial⟩
  | pendingOperations =>
    refine ⟨h, fun ops hops o ho => ?_⟩
    cases hops
    exact h.log o (Ledger.mem_unsynced.mp (List.mem_of_mem_take ho)).1
  | readTable e =>
    refine ⟨h, fun rows hrows r hr => ?_⟩
    cases hrows
    exact h.of_mem hr
  | _ => exact ⟨h, trivial⟩

/-- A request of the diverged device, which does not flush. -/
theorem OnlyOn.asked_own {q : Request β} {r : Except SyncError q.Reply} (h : OnlyOn d x s) (hdiverged : s.dest.Diverged d)
    (hlisting : Listing q) (hserved : Served (gitSite host target) d q s r s') : OnlyOn d x s' ∧ Unlisted q r := by
  rcases hserved with ⟨wall, coin, hserve⟩ | hmis
  · cases q with
    | call call =>
      obtain ⟨rfl, rfl⟩ := Prod.mk.inj hserve
      have hflush : call ≠ .flush := fun hc => by rw [hc] at hlisting; exact hlisting
      refine ⟨h.own (GitAdapter.remote_serve hflush) rfl rfl, fun v k hcall => ?_⟩
      cases hcall
      exact ⟨_, unlisted_of_diverged hdiverged v k⟩
    | query query =>
      obtain ⟨rfl, rfl⟩ := Prod.mk.inj hserve
      exact ⟨h.update rfl (fun _ hne => afterQuery_ne hne) (fun hne => absurd rfl hne), fun v k hcall => (nomatch hcall)⟩
  · cases hmis with
    | failed call s dest retryable hmis =>
      obtain ⟨repo, hmis, rfl⟩ := hmis
      have hflush : call ≠ .flush := fun hc => by rw [hc] at hlisting; exact hlisting
      exact ⟨h.own (GitAdapter.remote_mishap hflush hmis) rfl rfl, fun v k _ => ⟨_, rfl⟩⟩

/-- A request of another device, which does not bring what it has not heard of. -/
theorem OnlyOn.asked_other {d' : D} {q : Request β} {r : Except SyncError q.Reply} (h : OnlyOn d x s) (hd : d' ≠ d)
    (hsilent : Silent x q) (hserved : Served (gitSite host target) d' q s r s') : OnlyOn d x s' ∧ Deaf x q r := by
  rcases hserved with ⟨wall, coin, hserve⟩ | hmis
  · cases q with
    | call call =>
      obtain ⟨rfl, rfl⟩ := Prod.mk.inj hserve
      refine ⟨h.other hd hsilent (fun p hp => GitAdapter.mem_of_serve hp) rfl rfl, ?_⟩
      cases call with
      | get name =>
        intro bytes hbytes
        obtain ⟨clone, hc, hmem⟩ := GitAdapter.get_of_ok hbytes
        have hp : (name, bytes) ∈ (GitAdapter.serve host (target d') (.get name) (s.dest.repository d')).2.objects :=
          Or.inr ⟨clone, hc, Or.inr (Or.inr hmem)⟩
        rcases GitAdapter.mem_of_serve hp with hp | hp
        · exact h.reached d' hd _ hp
        · cases hp
      | _ => exact trivial
    | query query =>
      obtain ⟨rfl, rfl⟩ := Prod.mk.inj hserve
      obtain ⟨hlacks, hdeaf⟩ := lacks_answer (h.ledgers d' hd) wall coin hsilent
      refine ⟨h.update rfl (fun _ hne => afterQuery_ne hne) (fun _ _ => ?_), hdeaf⟩
      rw [afterQuery_device]
      exact hlacks
  · cases hmis with
    | failed call s dest retryable hmis =>
      obtain ⟨repo, hmis, rfl⟩ := hmis
      refine ⟨h.other hd hsilent (fun p hp => GitAdapter.mem_of_mishap hmis hp) rfl rfl, ?_⟩
      cases call with
      | get name => exact fun bytes hbytes => nomatch hbytes
      | _ => exact trivial

theorem stranded_parties (V : Vault D) (host : GitHost β) (target : D → GitTarget) (d : D) (x : Stamp)
    (hx : x.device = V.deviceId d) :
    Threads.Parties (world V (gitSite host target)) (fun s => s.dest.Diverged d ∧ OnlyOn d x s)
      (fun d' q => (d' = d → Listing q) ∧ (d' ≠ d → Silent x q))
      (fun d' q r => (d' = d → Unlisted q r) ∧ (d' ≠ d → Deaf x q r)) (fun _ _ => True) where
  body := by
    intro d'
    by_cases hd : d' = d
    · exact (unlisted_runCycle (V.session d')).imp (fun _ h => ⟨fun _ => h, fun hne => absurd hd hne⟩) (fun _ _ h => h.1 hd)
        (fun _ _ => trivial)
    · exact (unaware_runCycle (V.session d')).imp (fun _ h => ⟨fun heq => absurd heq hd, fun _ => h⟩) (fun _ _ h => h.2 hd)
        (fun _ h => h)
  enter := fun d' s h => ⟨h.1.extends (Git.extends_connect _ d'), ⟨h.2.published, h.2.reached, h.2.ledgers⟩⟩
  step := by
    rintro d' q s r s' ⟨hdiverged, h⟩ ⟨hown, hother⟩ hserved
    have hdiverged' := hdiverged.extends (extends_served hserved)
    by_cases hd : d' = d
    · subst hd
      obtain ⟨honly, hunlisted⟩ := h.asked_own hdiverged (hown rfl) hserved
      exact ⟨⟨hdiverged', honly⟩, fun _ => hunlisted, fun hne => absurd rfl hne⟩
    · obtain ⟨honly, hdeaf⟩ := h.asked_other hd (hother hd) hserved
      exact ⟨⟨hdiverged', honly⟩, fun heq => absurd heq hd, fun _ => hdeaf⟩
  leave := by
    intro d' r s h _
    cases r with
    | error e => exact h
    | ok a => exact ⟨h.1, ⟨h.2.published, h.2.reached, h.2.ledgers⟩⟩
  env := by
    rintro s s' ⟨hdiverged, h⟩ hedit
    obtain ⟨d', L, op, he, rfl⟩ := hedit.edited
    refine ⟨hdiverged, h.update rfl (fun _ hne => afterEdit_ne hne) (fun hd hlacks => ?_)⟩
    rw [afterEdit_device]
    exact hlacks.edited he (fun heq => hd (V.distinct (heq.symm.trans hx)))
  crash := by
    rintro d' s ⟨hdiverged, h⟩
    refine ⟨hdiverged, h.update rfl (fun _ hne => restart_ne hne) (fun _ hlacks => ?_)⟩
    change ((restart d' s).device d').ledger.Lacks x
    rw [restart_device]
    exact ⟨hlacks.log, hlacks.rows⟩

/-- What only a diverged device has, stays there: in no later state is it published, no other device ever has it in its
log or its tables, and no cycle of another device ever carries it. -/
theorem stranded (h : (world V (gitSite host target)).Reach c c') (hd : c.store.dest.Diverged d)
    (hidle : c.running d = none) (hothers : ∀ d', d' ≠ d → ∀ p, c.running d' = some p → Unaware x (fun _ => True) p)
    (hx : x.device = V.deviceId d) (honly : OnlyOn d x c.store) :
    OnlyOn d x c'.store ∧ ∀ d', d' ≠ d → ∀ p, c'.running d' = some p → Unaware x (fun _ => True) p := by
  have hrun : ∀ d' p, c.running d' = some p → p.Guarded (fun q => (d' = d → Listing q) ∧ (d' ≠ d → Silent x q))
      (fun q r => (d' = d → Unlisted q r) ∧ (d' ≠ d → Deaf x q r)) (fun _ => True) := by
    intro d' p hp
    by_cases hd' : d' = d
    · rw [hd', hidle] at hp
      cases hp
    · exact (hothers d' hd' p hp).imp (fun _ h => ⟨fun heq => absurd heq hd', fun _ => h⟩) (fun _ _ h => h.2 hd')
        (fun _ h => h)
  obtain ⟨⟨-, hafter⟩, hrunning⟩ := (stranded_parties V host target d x hx).reach ⟨hd, honly⟩ hrun h
  refine ⟨hafter, fun d' hd' p hp => ?_⟩
  exact (hrunning d' p hp).imp (fun _ h => h.2 hd') (fun _ _ h => ⟨fun heq => absurd heq hd', fun _ => h⟩) (fun _ h => h)

end System

/-! ### An edit that is lost -/

instance (x : Stamp) (op : Operation β) : Decidable (op.Mentions x) :=
  decidable_of_iff (op.hlc = x ∨ ∃ r ∈ op.row, r.updatedAt = x) Iff.rfl

instance (x : Stamp) (ops : List (Operation β)) : Decidable (Unmentioned x ops) :=
  inferInstanceAs (Decidable (∀ op ∈ ops, ¬ op.Mentions x))

/-- After the race the faster device has begun another cycle. -/
def racing : GitState := play trio gitTrio raced (.begin .a)

/-- The stamp of the edit that the slower device had put when it lost the race. -/
def lostStamp : Stamp := ⟨3, 0, trio.deviceId .b⟩

theorem onlyOn_racing : OnlyOn .b lostStamp racing.store := by
  have hremote : ∀ commit ∈ racing.store.dest.remote, ∀ p ∈ commit.tree.rows, Unmentioned lostStamp p.2.operations := by
    decide +kernel
  have hlog : ∀ d' ∈ [Trio.a, Trio.c], ∀ o ∈ (racing.store.device d').ledger.oplog.rows, ¬ o.toOperation.Mentions lostStamp := by
    decide +kernel
  have hrows : ∀ d' ∈ [Trio.a, Trio.c], ∀ e ∈ ENTITY_NAMES, ∀ r ∈ ((racing.store.device d').ledger.tables e).rows,
      r.updatedAt ≠ lostStamp := by
    decide +kernel
  have hclone : ∀ d' ∈ [Trio.a, Trio.c], ∀ clone ∈ racing.store.dest.clone d',
      (∀ commit ∈ clone.branch, ∀ p ∈ commit.tree.rows, Unmentioned lostStamp p.2.operations) ∧
      (∀ p ∈ clone.index.rows, Unmentioned lostStamp p.2.operations) ∧
      ∀ p ∈ clone.files.rows, Unmentioned lostStamp p.2.operations := by
    decide +kernel
  have hother : ∀ d', d' ≠ Trio.b → d' ∈ [Trio.a, Trio.c] := by
    intro d' hd
    cases d' with
    | a => decide
    | b => exact absurd rfl hd
    | c => decide
  have hpublished : ∀ p ∈ racing.store.dest.remote.objects, Unmentioned lostStamp p.2.operations := by
    rintro p ⟨commit, hcommit, hp⟩
    exact hremote commit hcommit p hp
  refine ⟨hpublished, fun d' hd p hp => ?_, fun d' hd => ⟨hlog d' (hother d' hd), fun t r hr => ?_⟩⟩
  · rcases hp with hp | ⟨clone, hc, hp⟩
    · exact hpublished p hp
    · obtain ⟨hbranch, hindex, hfiles⟩ := hclone d' (hother d' hd) clone hc
      rcases hp with ⟨commit, hcommit, hp⟩ | hp | hp
      · exact hbranch commit hcommit p hp
      · exact hindex p hp
      · exact hfiles p hp
  · exact hrows d' (hother d' hd) t.1 (mem_entityNames t.1) r (Table.get?_eq_some.mp hr).1

/-- And then all devices have gone through another cycle. -/
def racedOn : GitState :=
  [.begin .b, .finish .b 8, .finish .a 9, .begin .c, .finish .c 9].foldl (play trio gitTrio) racing

/-- The edit counts as sent on its device, and no other has it. -/
theorem stranded_racedOn : (∃ o ∈ (racedOn.store.device .b).ledger.oplog.rows, o.hlc = lostStamp ∧ o.synced = true) ∧
    ∀ o ∈ (racedOn.store.device .a).ledger.oplog, ¬ o.toOperation.Mentions lostStamp := by
  have hreach : (world trio gitTrio).Reach racing racedOn := reach_play _
  have hdiverged : racing.store.dest.Diverged .b := by decide +kernel
  have hidle : racing.running .b = none := rfl
  have hothers : ∀ d', d' ≠ Trio.b → ∀ p, racing.running d' = some p → Unaware lostStamp (fun _ => True) p := by
    intro d' hd p hp
    cases d' with
    | a =>
      obtain rfl : runCycle (trio.session .a) = p := Option.some.inj hp
      exact unaware_runCycle _
    | b => exact absurd rfl hd
    | c => cases hp
  have honly := (stranded hreach hdiverged hidle hothers rfl onlyOn_racing).1
  exact ⟨by decide +kernel, (honly.ledgers .a (by decide)).log⟩

end EasyDocket
