import EasyDocket.Sync.ServerSite
import Mathlib.Data.Finset.Card
import Mathlib.Data.List.Infix

/-!
# A destination that is a Git repository

`GitAdapter`: the objects of a vault are files of one branch.  Every device has a clone, kept between its cycles; a
listing fast-forwards it, a put or remove stages a file, and a flush commits what is staged and pushes the branch.

The Git library and the branch at its host are `GitLibrary`: what a fetch finds and what a checkout does with files
that are not committed is left to it, within what it documents.  A commit is known by what it contains and comes after.
-/

namespace EasyDocket

variable {D β : Type}

/-! ## Histories -/

instance instDecidableEqObjectMap [DecidableEq β] : DecidableEq (ObjectMap β) := fun m m' =>
  decidable_of_iff (m.rows = m'.rows) ⟨fun h => by cases m; cases m'; cases h; rfl, fun h => h ▸ rfl⟩

/-- Who a commit is by. -/
structure Author where
  name : String
  email : String
  deriving DecidableEq

/-- A commit, apart from its parent. -/
structure Commit (β : Type) where
  tree : ObjectMap β
  message : String
  author : Author
  time : ℕ
  deriving DecidableEq

/-- A branch, oldest commit first; a branch without commits does not exist yet. -/
abbrev History (β : Type) := List (Commit β)

/-- The objects at the tip of a branch. -/
def History.tree (h : History β) : ObjectMap β :=
  match h.getLast? with
  | some commit => commit.tree
  | none => Table.empty

/-- The objects of all commits of a branch. -/
def History.objects (h : History β) : Set (ObjectName × Envelope β) := {p | ∃ commit ∈ h, p ∈ commit.tree}

theorem History.tree_append (h : History β) (commit : Commit β) : History.tree (h ++ [commit]) = commit.tree := by
  unfold History.tree
  rw [List.getLast?_concat]

theorem History.mem_objects_of_mem_tree {h : History β} {p : ObjectName × Envelope β} (hp : p ∈ h.tree) :
    p ∈ h.objects := by
  unfold History.tree at hp
  cases hl : h.getLast? with
  | none =>
    rw [hl] at hp
    exact absurd hp (Table.not_mem_empty p)
  | some commit =>
    rw [hl] at hp
    exact ⟨commit, List.mem_of_getLast? hl, hp⟩

/-! ## The library -/

/-- What fetching a branch and fast-forwarding to it comes to. -/
inductive Forwarded
  | moved
  /-- The local branch has all commits of the other already. -/
  | kept
  /-- A branch could not be found. -/
  | missing
  /-- Neither branch extends the other. -/
  | refused
  deriving DecidableEq

/-- What is used of the Git library and of the host. -/
structure GitLibrary (β : Type) where
  /-- Fast-forward a local branch to the fetched one. -/
  fastForward : History β → History β → Forwarded
  moved : ∀ l r, fastForward l r = .moved → l <+: r
  missing : ∀ l, fastForward l [] = .missing
  behind : ∀ l r, l ≠ [] → l <+: r → fastForward l r = .moved ∨ (fastForward l r = .kept ∧ l = r)
  ahead : ∀ l r, r ≠ [] → r <+: l → fastForward l r = .kept ∨ (fastForward l r = .moved ∧ l = r)
  refused : ∀ l r, ¬ l <+: r → ¬ r <+: l → fastForward l r = .refused
  /-- Bring index and files to a tree; `none` where a change that is not committed is in the way. -/
  checkout : ObjectMap β → ObjectMap β → ObjectMap β → Option (ObjectMap β × ObjectMap β)
  checkout_subset : ∀ index files tree index' files', checkout index files tree = some (index', files') →
    ∀ p, p ∈ index' ∨ p ∈ files' → p ∈ index ∨ p ∈ files ∨ p ∈ tree
  checkout_clean : ∀ tree tree', checkout tree tree tree' = some (tree', tree')
  /-- Whether the host takes a push of `l` over `r`. -/
  accepts : History β → History β → Bool
  accepts_iff : ∀ l r, accepts l r = true ↔ r <+: l

/-! ## One device and the branch at the host -/

/-- The clone of a device. -/
structure Clone (β : Type) where
  branch : History β
  index : ObjectMap β
  files : ObjectMap β

/-- The objects of a clone, committed or not. -/
def Clone.objects (clone : Clone β) : Set (ObjectName × Envelope β) :=
  {p | p ∈ clone.branch.objects ∨ p ∈ clone.index ∨ p ∈ clone.files}

/-- What the adapter of a device works on. -/
structure Repository (β : Type) where
  remote : History β
  clone : Option (Clone β)
  /-- The names of an adapter's `staged`. -/
  staged : Finset ObjectName
  /-- How many commits have been made, anywhere. -/
  commits : ℕ

/-- The objects one device can reach. -/
def Repository.objects (repo : Repository β) : Set (ObjectName × Envelope β) :=
  {p | p ∈ repo.remote.objects ∨ ∃ clone, repo.clone = some clone ∧ p ∈ clone.objects}

/-- What is configured of the author of commits. -/
structure GitTarget where
  authorName : String
  authorEmail : String

/-- The surroundings of an adapter: the library, the times of commits, and whether the host has other branches. -/
structure GitHost (β : Type) where
  library : GitLibrary β
  clock : ℕ → ℕ
  otherBranches : Bool

namespace GitAdapter

variable (host : GitHost β) (target : GitTarget)

/-- `ensureClone`: the clone that is there, one that is made, or a history that is started. -/
def ensureClone (repo : Repository β) : Except SyncError (Clone β) :=
  match repo.clone with
  | some clone => .ok clone
  | none =>
    match repo.remote.getLast? with
    | some commit => .ok ⟨repo.remote, commit.tree, commit.tree⟩
    | none =>
      -- with heads but not this one, `clone` could not find the branch
      if host.otherBranches then .error (.transport true) else .ok ⟨[], Table.empty, Table.empty⟩

/-- The last step of a fast-forward. -/
def checkout (clone : Clone β) : Except SyncError Unit × Clone β :=
  match host.library.checkout clone.index clone.files clone.branch.tree with
  | some (index, files) => (.ok (), { clone with index, files })
  | none => (.error (.transport true), clone)

/-- `sync`: fetch and fast-forward. -/
def sync (remote : History β) (clone : Clone β) : Except SyncError Unit × Clone β :=
  match host.library.fastForward clone.branch remote with
  | .moved => checkout host { clone with branch := remote }
  | .kept => checkout host clone
  | .missing => (.ok (), clone)
  | .refused => (.error (.transport true), clone)

/-- `list` of a directory of a vault. -/
def list (vault : JsString) (kind : ObjectKind) (repo : Repository β) : Except SyncError (List ObjectName) × Repository β :=
  match ensureClone host repo with
  | .error e => (.error e, repo)
  | .ok clone =>
    (match (sync host repo.remote clone).1 with
      | .ok () => .ok ((sync host repo.remote clone).2.files.list vault kind)
      | .error e => .error e, { repo with clone := some (sync host repo.remote clone).2 })

/-- `get`: a file of the clone. -/
def get (name : ObjectName) (repo : Repository β) : Except SyncError (Envelope β) × Repository β :=
  match ensureClone host repo with
  | .error e => (.error e, repo)
  | .ok clone =>
    (match clone.files.get? name with
      | some p => .ok p.2
      | none => .error (.transport false), { repo with clone := some clone })

/-- `put`: write a file and stage it. -/
def put (name : ObjectName) (bytes : Envelope β) (repo : Repository β) : Except SyncError Unit × Repository β :=
  match ensureClone host repo with
  | .error e => (.error e, repo)
  | .ok clone =>
    (.ok (), { repo with
      clone := some { clone with index := clone.index.put (name, bytes), files := clone.files.put (name, bytes) }
      staged := insert name repo.staged })

/-- `remove`: delete a file and stage that; nothing where it is gone already. -/
def remove (name : ObjectName) (repo : Repository β) : Except SyncError Unit × Repository β :=
  match ensureClone host repo with
  | .error e => (.error e, repo)
  | .ok clone =>
    match clone.files.get? name with
    | none => (.ok (), { repo with clone := some clone })
    | some _ => (.ok (), { repo with
        clone := some { clone with index := clone.index.delete name, files := clone.files.delete name }
        staged := insert name repo.staged })

/-- The message of a commit. -/
def message (count : ℕ) : String :=
  "Easy Docket: sync " ++ toString count ++ " object" ++ (if count = 1 then "" else "s")

/-- The author of a commit. -/
def author : Author :=
  ⟨if target.authorName = "" then "Easy Docket" else target.authorName,
    if target.authorEmail = "" then "docket@localhost" else target.authorEmail⟩

/-- The commit a flush makes. -/
def commit (repo : Repository β) (clone : Clone β) : Commit β :=
  ⟨clone.index, message repo.staged.card, author target, host.clock repo.commits⟩

/-- The repository once a flush has committed. -/
def committed (repo : Repository β) (clone : Clone β) : Repository β :=
  { repo with
    clone := some { clone with branch := clone.branch ++ [commit host target repo clone] }
    commits := repo.commits + 1 }

/-- `flush`: commit everything staged and push it. -/
def flush (repo : Repository β) : Except SyncError Unit × Repository β :=
  if repo.staged = ∅ then (.ok (), repo)
  else
    match repo.clone with
    | none => (.error (.transport true), repo)
    | some clone =>
      let branch := clone.branch ++ [commit host target repo clone]
      if host.library.accepts branch repo.remote then
        (.ok (), { committed host target repo clone with remote := branch, staged := ∅ })
      else (.error (.transport true), committed host target repo clone)

/-- Serve a call. -/
def serve : (c : Call β) → Repository β → Except SyncError c.Reply × Repository β
  | .list vault kind, repo => list host vault kind repo
  | .get name, repo => get host name repo
  | .put name bytes, repo => put host name bytes repo
  | .remove name, repo => remove host name repo
  | .flush, repo => flush host target repo

/-- What a call that fails on the way may leave. -/
inductive Mishap : Call β → Repository β → Repository β → Prop
  | untouched (c : Call β) (repo : Repository β) : Mishap c repo repo
  /-- The answer is lost. -/
  | served (c : Call β) (repo : Repository β) : Mishap c repo (serve host target c repo).2
  /-- A clone that was begun, and has nothing yet. -/
  | begun (c : Call β) (repo : Repository β) (h : repo.clone = none) :
    Mishap c repo { repo with clone := some ⟨[], Table.empty, Table.empty⟩ }
  | cloned (c : Call β) (repo : Repository β) (clone : Clone β) (h : ensureClone host repo = .ok clone) :
    Mishap c repo { repo with clone := some clone }
  /-- A checkout that was cut short. -/
  | partway (vault : JsString) (kind : ObjectKind) (repo : Repository β) (clone : Clone β) (branch : History β)
    (index files : ObjectMap β) (h : ensureClone host repo = .ok clone)
    (hbranch : branch = clone.branch ∨
      (host.library.fastForward clone.branch repo.remote = .moved ∧ branch = repo.remote))
    (hfiles : ∀ p, p ∈ index ∨ p ∈ files → p ∈ clone.index ∨ p ∈ clone.files ∨ p ∈ branch.tree) :
    Mishap (.list vault kind) repo { repo with clone := some ⟨branch, index, files⟩ }
  /-- A file that was written and not staged. -/
  | written (name : ObjectName) (bytes : Envelope β) (repo : Repository β) (clone : Clone β)
    (h : ensureClone host repo = .ok clone) :
    Mishap (.put name bytes) repo { repo with clone := some { clone with files := clone.files.put (name, bytes) } }
  | unlinked (name : ObjectName) (repo : Repository β) (clone : Clone β) (h : ensureClone host repo = .ok clone) :
    Mishap (.remove name) repo { repo with clone := some { clone with files := clone.files.delete name } }
  /-- A commit that was not pushed. -/
  | unpushed (repo : Repository β) (clone : Clone β) (h : repo.clone = some clone) (hstaged : repo.staged ≠ ∅) :
    Mishap .flush repo (committed host target repo clone)

end GitAdapter

/-! ## All devices -/

/-- The branch at the host, and what every device keeps of it. -/
structure Git (D β : Type) where
  remote : History β
  clone : D → Option (Clone β)
  staged : D → Finset ObjectName
  commits : ℕ

namespace Git

/-- What one device works on. -/
def repository (g : Git D β) (d : D) : Repository β := ⟨g.remote, g.clone d, g.staged d, g.commits⟩

variable [DecidableEq D]

/-- What one device has worked on, put back. -/
def withRepository (g : Git D β) (d : D) (repo : Repository β) : Git D β where
  remote := repo.remote
  clone := Function.update g.clone d repo.clone
  staged := Function.update g.staged d repo.staged
  commits := repo.commits

/-- A new adapter has staged nothing. -/
def connect (g : Git D β) (d : D) : Git D β := { g with staged := Function.update g.staged d ∅ }

/-- The objects that are anywhere: at the host, or in a branch, an index or the files of a clone. -/
def objects (g : Git D β) : Set (ObjectName × Envelope β) := {p | ∃ d, p ∈ (g.repository d).objects}

@[simp] theorem withRepository_self (g : Git D β) (d : D) (repo : Repository β) :
    (g.withRepository d repo).repository d = repo := by
  simp [repository, withRepository]

@[simp] theorem withRepository_remote (g : Git D β) (d : D) (repo : Repository β) :
    (g.withRepository d repo).remote = repo.remote := rfl

theorem withRepository_clone_self (g : Git D β) (d : D) (repo : Repository β) :
    (g.withRepository d repo).clone d = repo.clone := Function.update_self ..

theorem withRepository_clone_ne (g : Git D β) {d d' : D} (repo : Repository β) (h : d' ≠ d) :
    (g.withRepository d repo).clone d' = g.clone d' := Function.update_of_ne h ..

end Git

/-! ## Where objects come from -/

namespace GitAdapter

variable {host : GitHost β} {target : GitTarget} {repo repo' : Repository β} {clone : Clone β}
  {p : ObjectName × Envelope β}

theorem mem_of_ensureClone (h : ensureClone host repo = .ok clone) (hp : p ∈ clone.objects) : p ∈ repo.objects := by
  unfold ensureClone at h
  cases hc : repo.clone with
  | some c =>
    rw [hc] at h
    cases h
    exact Or.inr ⟨clone, hc, hp⟩
  | none =>
    rw [hc] at h
    cases hl : repo.remote.getLast? with
    | some commit =>
      rw [hl] at h
      cases h
      have htip : ∀ {q}, q ∈ commit.tree → q ∈ repo.remote.objects :=
        fun hq => ⟨commit, List.mem_of_getLast? hl, hq⟩
      rcases hp with hp | hp | hp
      · exact Or.inl hp
      · exact Or.inl (htip hp)
      · exact Or.inl (htip hp)
    | none =>
      rw [hl] at h
      dsimp only at h
      split_ifs at h
      cases h
      rcases hp with ⟨commit, hcommit, -⟩ | hp | hp
      · exact absurd hcommit List.not_mem_nil
      · exact absurd hp (Table.not_mem_empty p)
      · exact absurd hp (Table.not_mem_empty p)

theorem mem_of_checkout (hp : p ∈ (checkout host clone).2.objects) : p ∈ clone.objects := by
  unfold checkout at hp
  split at hp
  · rename_i index files h
    rcases hp with hp | hp
    · exact Or.inl hp
    · rcases host.library.checkout_subset _ _ _ _ _ h p hp with hp | hp | hp
      · exact Or.inr (Or.inl hp)
      · exact Or.inr (Or.inr hp)
      · exact Or.inl (History.mem_objects_of_mem_tree hp)
  · exact hp

theorem mem_of_sync {remote : History β} (hp : p ∈ (sync host remote clone).2.objects) :
    p ∈ clone.objects ∨ p ∈ remote.objects := by
  unfold sync at hp
  split at hp
  · rcases mem_of_checkout hp with hp | hp
    · exact Or.inr hp
    · exact Or.inl (Or.inr hp)
  · exact Or.inl (mem_of_checkout hp)
  · exact Or.inl hp
  · exact Or.inl hp

theorem mem_of_clone {clone' : Clone β} (h : ensureClone host repo = .ok clone)
    (hp : p ∈ ({ repo with clone := some clone' } : Repository β).objects)
    (hclone : p ∈ clone'.objects → p ∈ clone.objects ∨ p ∈ repo.remote.objects) : p ∈ repo.objects := by
  rcases hp with hp | ⟨c, hc, hp⟩
  · exact Or.inl hp
  · cases hc
    rcases hclone hp with hp | hp
    · exact mem_of_ensureClone h hp
    · exact Or.inl hp

theorem mem_of_committed (h : repo.clone = some clone) (hp : p ∈ (committed host target repo clone).objects) :
    p ∈ repo.objects := by
  rcases hp with hp | ⟨c, hc, hp⟩
  · exact Or.inl hp
  · cases hc
    refine Or.inr ⟨clone, h, ?_⟩
    rcases hp with ⟨made, hmade, hp⟩ | hp | hp
    · rcases List.mem_append.mp hmade with hmade | hmade
      · exact Or.inl ⟨made, hmade, hp⟩
      · rw [List.mem_singleton.mp hmade] at hp
        exact Or.inr (Or.inl hp)
    · exact Or.inr (Or.inl hp)
    · exact Or.inr (Or.inr hp)

/-- A call brings nothing but what it puts. -/
theorem mem_of_serve {c : Call β} (hp : p ∈ (serve host target c repo).2.objects) :
    p ∈ repo.objects ∨ c = .put p.1 p.2 := by
  cases c with
  | list vault kind =>
    refine Or.inl ?_
    change p ∈ (list host vault kind repo).2.objects at hp
    unfold list at hp
    split at hp
    · exact hp
    · rename_i clone h
      exact mem_of_clone h hp mem_of_sync
  | get name =>
    refine Or.inl ?_
    change p ∈ (get host name repo).2.objects at hp
    unfold get at hp
    split at hp
    · exact hp
    · rename_i clone h
      exact mem_of_clone h hp Or.inl
  | put name bytes =>
    change p ∈ (put host name bytes repo).2.objects at hp
    unfold put at hp
    split at hp
    · exact Or.inl hp
    · rename_i clone h
      by_cases hput : p = (name, bytes)
      · exact Or.inr (by rw [hput])
      · refine Or.inl (mem_of_clone h hp ?_)
        rintro (hb | hb | hb)
        · exact Or.inl (Or.inl hb)
        · exact Or.inl (Or.inr (Or.inl ((Table.mem_put.mp hb).resolve_left hput).1))
        · exact Or.inl (Or.inr (Or.inr ((Table.mem_put.mp hb).resolve_left hput).1))
  | remove name =>
    refine Or.inl ?_
    change p ∈ (remove host name repo).2.objects at hp
    unfold remove at hp
    split at hp
    · exact hp
    · rename_i clone h
      split at hp
      · exact mem_of_clone h hp Or.inl
      · refine mem_of_clone h hp ?_
        rintro (hb | hb | hb)
        · exact Or.inl (Or.inl hb)
        · exact Or.inl (Or.inr (Or.inl (Table.mem_delete.mp hb).1))
        · exact Or.inl (Or.inr (Or.inr (Table.mem_delete.mp hb).1))
  | flush =>
    refine Or.inl ?_
    change p ∈ (flush host target repo).2.objects at hp
    unfold flush at hp
    split_ifs at hp
    · exact hp
    · cases hc : repo.clone with
      | none =>
        rw [hc] at hp
        exact hp
      | some clone =>
        rw [hc] at hp
        dsimp only at hp
        split_ifs at hp
        · rcases hp with hp | hp
          · exact mem_of_committed hc (Or.inr ⟨_, rfl, Or.inl hp⟩)
          · exact mem_of_committed hc (Or.inr hp)
        · exact mem_of_committed hc hp

theorem mem_of_mishap {c : Call β} (h : Mishap host target c repo repo') (hp : p ∈ repo'.objects) :
    p ∈ repo.objects ∨ c = .put p.1 p.2 := by
  cases h with
  | untouched => exact Or.inl hp
  | served => exact mem_of_serve hp
  | begun =>
    refine Or.inl ?_
    rcases hp with hp | ⟨c, hc, hp⟩
    · exact Or.inl hp
    · cases hc
      rcases hp with ⟨_, hcommit, _⟩ | hp | hp
      · exact absurd hcommit List.not_mem_nil
      · exact absurd hp (Table.not_mem_empty p)
      · exact absurd hp (Table.not_mem_empty p)
  | cloned _ _ clone h => exact Or.inl (mem_of_clone h hp Or.inl)
  | partway vault kind _ clone branch index files h hbranch hfiles =>
    refine Or.inl (mem_of_clone h hp (fun hp => ?_))
    have hinBranch : p ∈ branch.objects → p ∈ clone.objects ∨ p ∈ repo.remote.objects := by
      intro hb
      rcases hbranch with rfl | ⟨-, rfl⟩
      · exact Or.inl (Or.inl hb)
      · exact Or.inr hb
    rcases hp with hp | hp
    · exact hinBranch hp
    · rcases hfiles p hp with hp | hp | hp
      · exact Or.inl (Or.inr (Or.inl hp))
      · exact Or.inl (Or.inr (Or.inr hp))
      · exact hinBranch (History.mem_objects_of_mem_tree hp)
  | written name bytes _ clone h =>
    by_cases hput : p = (name, bytes)
    · exact Or.inr (by rw [hput])
    · refine Or.inl (mem_of_clone h hp ?_)
      rintro (hb | hb | hb)
      · exact Or.inl (Or.inl hb)
      · exact Or.inl (Or.inr (Or.inl hb))
      · exact Or.inl (Or.inr (Or.inr ((Table.mem_put.mp hb).resolve_left hput).1))
  | unlinked name _ clone h =>
    refine Or.inl (mem_of_clone h hp ?_)
    rintro (hb | hb | hb)
    · exact Or.inl (Or.inl hb)
    · exact Or.inl (Or.inr (Or.inl hb))
    · exact Or.inl (Or.inr (Or.inr (Table.mem_delete.mp hb).1))
  | unpushed _ clone h hstaged => exact Or.inl (mem_of_committed h hp)

theorem list_of_ok {v : JsString} {k : ObjectKind} {ns : List ObjectName} (h : (list host v k repo).1 = .ok ns) :
    ∃ clone, (list host v k repo).2.clone = some clone ∧ ns = clone.files.list v k := by
  unfold list at h ⊢
  split at h
  · cases h
  · dsimp only at h ⊢
    split at h
    · cases h
      exact ⟨_, rfl, rfl⟩
    · cases h

theorem get_of_ok {n : ObjectName} {env : Envelope β} (h : (get host n repo).1 = .ok env) :
    ∃ clone, (get host n repo).2.clone = some clone ∧ (n, env) ∈ clone.files := by
  unfold get at h ⊢
  split at h
  · cases h
  · rename_i clone hclone
    dsimp only at h ⊢
    split at h
    · rename_i p hp
      cases h
      obtain ⟨hmem, hkey⟩ := Table.get?_eq_some.mp hp
      exact ⟨clone, rfl, by rw [← hkey]; exact hmem⟩
    · cases h

theorem put_of_ok {n : ObjectName} {env : Envelope β} (h : (put host n env repo).1 = .ok ()) :
    ∃ clone, (put host n env repo).2.clone = some clone ∧ (n, env) ∈ clone.files := by
  unfold put at h ⊢
  split at h
  · cases h
  · exact ⟨_, rfl, Table.mem_put_self _ _⟩

end GitAdapter

/-! ## The site -/

/-- A repository that nobody has a clone of. -/
def Git.hosted (D : Type) {β : Type} (remote : History β) : Git D β := ⟨remote, fun _ => none, fun _ => ∅, 0⟩

namespace Git

variable [DecidableEq D] {g : Git D β} {d : D}

theorem mem_of_withRepository {repo : Repository β} {p : ObjectName × Envelope β}
    (hp : p ∈ (g.withRepository d repo).objects) : p ∈ g.objects ∨ p ∈ repo.objects := by
  obtain ⟨d', hp⟩ := hp
  by_cases hd : d' = d
  · rw [hd, withRepository_self] at hp
    exact Or.inr hp
  · rcases hp with hp | ⟨clone, hc, hp⟩
    · exact Or.inr (Or.inl hp)
    · exact Or.inl ⟨d', Or.inr ⟨clone, (withRepository_clone_ne g repo hd).symm.trans hc, hp⟩⟩

theorem mem_withRepository {repo : Repository β} {p : ObjectName × Envelope β} (hp : p ∈ repo.objects) :
    p ∈ (g.withRepository d repo).objects :=
  ⟨d, by rw [withRepository_self]; exact hp⟩

theorem mem_files {clone : Clone β} {p : ObjectName × Envelope β} {repo : Repository β} (hc : repo.clone = some clone)
    (hp : p ∈ clone.files) : p ∈ (g.withRepository d repo).objects :=
  mem_withRepository (Or.inr ⟨clone, hc, Or.inr (Or.inr hp)⟩)

end Git

/-- The repository as a destination. -/
def gitSite [DecidableEq D] (host : GitHost β) (target : D → GitTarget) : Site D β (Git D β) where
  connect := fun d g => g.connect d
  serve := fun d c g =>
    ((GitAdapter.serve host (target d) c (g.repository d)).1,
      g.withRepository d (GitAdapter.serve host (target d) c (g.repository d)).2)
  mishap := fun d c g g' => ∃ repo, GitAdapter.Mishap host (target d) c (g.repository d) repo ∧
    g' = g.withRepository d repo
  holds := Git.objects
  connect_holds := fun _ _ _ h => h
  serve_holds := by
    intro d c g p hp
    rcases Git.mem_of_withRepository hp with hp | hp
    · exact Or.inl hp
    · exact (GitAdapter.mem_of_serve hp).imp_left (fun hp => ⟨d, hp⟩)
  mishap_holds := by
    rintro d c g g' ⟨repo, h, rfl⟩ p hp
    rcases Git.mem_of_withRepository hp with hp | hp
    · exact Or.inl hp
    · exact (GitAdapter.mem_of_mishap h hp).imp_left (fun hp => ⟨d, hp⟩)
  list_holds := by
    intro d v k g ns h n hn
    obtain ⟨clone, hc, rfl⟩ := GitAdapter.list_of_ok h
    obtain ⟨⟨env, henv⟩, hv, hk⟩ := ObjectMap.mem_list.mp hn
    refine ⟨hv, hk, env, ?_⟩
    have hp : (n, env) ∈ (GitAdapter.serve host (target d) (.list v k) (g.repository d)).2.objects :=
      Or.inr ⟨clone, hc, Or.inr (Or.inr henv)⟩
    rcases GitAdapter.mem_of_serve hp with hp | hp
    · exact ⟨d, hp⟩
    · cases hp
  get_holds := by
    intro d n g env h
    obtain ⟨clone, hc, henv⟩ := GitAdapter.get_of_ok h
    have hp : (n, env) ∈ (GitAdapter.serve host (target d) (.get n) (g.repository d)).2.objects :=
      Or.inr ⟨clone, hc, Or.inr (Or.inr henv)⟩
    rcases GitAdapter.mem_of_serve hp with hp | hp
    · exact ⟨d, hp⟩
    · cases hp
  put_holds := by
    intro d n env g h
    obtain ⟨clone, hc, henv⟩ := GitAdapter.put_of_ok h
    exact Git.mem_files hc henv

/-- The library as it behaves where a checkout has nothing in its way. -/
def GitLibrary.plain (β : Type) [DecidableEq β] : GitLibrary β where
  fastForward := fun l r =>
    if r = [] then .missing else if l <+: r then .moved else if r <+: l then .kept else .refused
  moved := by
    intro l r h
    split_ifs at h with h1 h2
    exact h2
  missing := fun l => if_pos rfl
  behind := by
    intro l r hl h
    have hr : r ≠ [] := fun hr => hl (List.prefix_nil.mp (hr ▸ h))
    rw [if_neg hr, if_pos h]
    exact Or.inl rfl
  ahead := by
    intro l r hr h
    rw [if_neg hr]
    by_cases hlr : l <+: r
    · rw [if_pos hlr]
      exact Or.inr ⟨rfl, hlr.eq_of_length_le h.length_le⟩
    · rw [if_neg hlr, if_pos h]
      exact Or.inl rfl
  refused := by
    intro l r hl hr
    have hne : r ≠ [] := fun h => hr (h ▸ List.nil_prefix)
    rw [if_neg hne, if_neg hl, if_neg hr]
  checkout := fun _ _ tree => some (tree, tree)
  checkout_subset := by
    intro index files tree index' files' h p hp
    cases h
    exact Or.inr (Or.inr (hp.elim id id))
  checkout_clean := fun _ _ => rfl
  accepts := fun l r => decide (r <+: l)
  accepts_iff := fun _ _ => decide_eq_true_iff

end EasyDocket
