import EasyDocket.Server.Accounts
import EasyDocket.Server.Refining
import EasyDocket.Lib.Unwinding

/-!
# Accounts are isolated

Requests are answered one after the other, on any disk and with any failures.  What a program asks on behalf of an
account is within the directory of the account, so what is answered to an account does not depend on the requests of
the others.
-/

namespace EasyDocket

namespace Server

section Accounts

variable (s : FSStore) (a : Account)

/-- What a program asks on behalf of an account. -/
def Within : FsRequest → Prop
  | .ctxErr => True
  | .lock account => account = a.id
  | .unlock account => account = a.id
  | .loadUsage account => account = a.id
  | .storeUsage account _ => account = a.id
  | .deleteUsage account => account = a.id
  | .readFile p => s.home a <+: p
  | .mkdirAll p => s.home a <+: p
  | .createTemp dir => s.home a <+: dir
  | .write tmp _ => s.home a <+: tmp
  | .sync tmp => s.home a <+: tmp
  | .close tmp => s.home a <+: tmp
  | .chmod tmp => s.home a <+: tmp
  | .rename tmp p => s.home a <+: tmp ∧ s.home a <+: p.dropLast
  | .remove p => s.home a <+: p
  | .lstat p => s.home a <+: p
  | .readDir p => s.home a <+: p
  | .info p => s.home a <+: p

/-- Temporary files are made where they were asked for. -/
def Gets (q : FsRequest) (r : Except StoreError q.Reply) : Prop :=
  match q, r with
  | .createTemp _, .ok (.ok tmp) => s.home a <+: tmp
  | _, _ => True

/-- Two machines look the same to an account. -/
structure SameFor (m m' : Machine) : Prop where
  files : ∀ p, (s.home a <+: p ∨ p <+: s.home a) → m.disk.fileAt p = m'.disk.fileAt p
  dirs : ∀ p, s.home a <+: p → m.disk.isDirAt p = m'.disk.isDirAt p
  usage : m.usages a.id = m'.usages a.id

variable {s a} {b : Account} {m m' m'' : Machine} {p : Path} {c : Choice} {q : FsRequest}

theorem SameFor.refl (m : Machine) : SameFor s a m m := ⟨fun _ _ => rfl, fun _ _ => rfl, rfl⟩

theorem SameFor.trans (h : SameFor s a m m') (h' : SameFor s a m' m'') : SameFor s a m m'' :=
  ⟨fun p hp => (h.files p hp).trans (h'.files p hp), fun p hp => (h.dirs p hp).trans (h'.dirs p hp), h.usage.trans h'.usage⟩

/-! ## The disk of an account -/

theorem SameFor.create (h : SameFor s a m m') (p : Path) (content : GoString) :
    SameFor s a (m.setDisk (m.disk.create p content)) (m'.setDisk (m'.disk.create p content)) := by
  refine ⟨fun q hq => ?_, h.dirs, h.usage⟩
  show (m.disk.create p content).fileAt q = (m'.disk.create p content).fileAt q
  rw [Disk.fileAt_create, Disk.fileAt_create, h.files q hq]

theorem SameFor.delete (h : SameFor s a m m') (p : Path) :
    SameFor s a (m.setDisk (m.disk.delete p)) (m'.setDisk (m'.disk.delete p)) := by
  refine ⟨fun q hq => ?_, h.dirs, h.usage⟩
  show (m.disk.delete p).fileAt q = (m'.disk.delete p).fileAt q
  rw [Disk.fileAt_delete, Disk.fileAt_delete, h.files q hq]

theorem SameFor.makeDirs (h : SameFor s a m m') (p : Path) :
    SameFor s a (m.setDisk (m.disk.makeDirs p)) (m'.setDisk (m'.disk.makeDirs p)) := by
  refine ⟨h.files, fun q hq => ?_, h.usage⟩
  show (m.disk.makeDirs p).isDirAt q = (m'.disk.makeDirs p).isDirAt q
  rw [Bool.eq_iff_iff, Disk.isDirAt_makeDirs, Disk.isDirAt_makeDirs, h.dirs q hq]

theorem SameFor.setUsage (h : SameFor s a m m') (total : Option ℕ) :
    SameFor s a (m.setUsage a.id total) (m'.setUsage a.id total) :=
  ⟨h.files, h.dirs, by
    show Function.update m.usages a.id total a.id = Function.update m'.usages a.id total a.id
    rw [Function.update_self, Function.update_self]⟩

/-- The names of what is in a directory, in their order. -/
theorem children_sorted {ν : Type} {key : ν → Path} (t : Table key) (p : Path) :
    (t.rows.filterMap (fun v => Disk.childOf p (key v))).Pairwise (· < ·) := by
  refine List.Pairwise.filterMap _ (fun x y hlt n hn k hk => ?_) t.sorted
  rw [Disk.childOf_eq_some.mp hn, Disk.childOf_eq_some.mp hk] at hlt
  by_contra hnot
  rcases (not_lt.mp hnot).lt_or_eq with h | h
  · have hback : p ++ [k] < p ++ [n] := List.append_left_lt (List.cons_lt_cons_iff.mpr (Or.inl h))
    exact lt_asymm hlt hback
  · rw [h] at hlt
    exact lt_irrefl _ hlt

theorem children_congr {ν : Type} {key : ν → Path} {t t' : Table key}
    (h : ∀ x, (∃ v ∈ t, key v = p ++ [x]) ↔ ∃ v ∈ t', key v = p ++ [x]) :
    t.rows.filterMap (fun v => Disk.childOf p (key v)) = t'.rows.filterMap (fun v => Disk.childOf p (key v)) := by
  have hiff : ∀ x, x ∈ t.rows.filterMap (fun v => Disk.childOf p (key v)) ↔
      x ∈ t'.rows.filterMap (fun v => Disk.childOf p (key v)) := by
    intro x
    simp only [List.mem_filterMap, Disk.childOf_eq_some]
    exact h x
  exact @Table.eq_of_mem_iff _ _ _ id _ _ (children_sorted t p) (children_sorted t' p) hiff

/-- The entries of a directory are told by the files and directories in it. -/
theorem entries_congr {disk disk' : Disk} (hfiles : ∀ x, (disk.fileAt (p ++ [x])).isSome = (disk'.fileAt (p ++ [x])).isSome)
    (hdirs : ∀ x, disk.isDirAt (p ++ [x]) = disk'.isDirAt (p ++ [x])) : disk.entries p = disk'.entries p := by
  have hfile : ∀ (disk : Disk) x, (∃ f ∈ disk.files, f.path = p ++ [x]) ↔ (disk.fileAt (p ++ [x])).isSome = true := by
    intro disk x
    rw [Option.isSome_iff_exists]
    constructor
    · rintro ⟨f, hf, hp⟩
      exact ⟨f.content, Disk.fileAt_eq_some.mpr (hp ▸ hf)⟩
    · rintro ⟨content, hc⟩
      exact ⟨_, Disk.fileAt_eq_some.mp hc, rfl⟩
  have hdir : ∀ (disk : Disk) x, (∃ q ∈ disk.dirs, q = p ++ [x]) ↔ disk.isDirAt (p ++ [x]) = true := by
    intro disk x
    rw [Disk.isDirAt_iff]
    exact ⟨fun ⟨q, hq, hp⟩ => hp ▸ hq, fun h => ⟨_, h, rfl⟩⟩
  have hf := @children_congr p _ _ disk.files disk'.files (fun x => by rw [hfile, hfile, hfiles])
  have hd := @children_congr p _ _ disk.dirs disk'.dirs (fun x => by rw [hdir, hdir, hdirs])
  unfold Disk.entries
  simp only [← List.map_filterMap, hf, hd]

/-! ## Requests on behalf of an account -/

/-- A path that is within an account's directory or above it is in no other. -/
theorem not_seen (hab : b ≠ a) (hp : s.home b <+: p) : ¬ (s.home a <+: p ∨ p <+: s.home a) := by
  rintro (h | h)
  · exact hab (s.home_unique hp h)
  · exact hab (s.home_unique (hp.trans h) (List.prefix_refl _))

theorem within_touches (hq : Within s b q) (h : Touches c q p) : s.home b <+: p := by
  cases q with
  | createTemp dir => exact (show p = _ from h) ▸ List.IsPrefix.trans hq (List.prefix_append _ _)
  | write tmp data => exact (show p = tmp from h) ▸ hq
  | rename tmp dest =>
    rcases h with rfl | rfl
    · exact hq.1
    · exact hq.2.trans (List.dropLast_prefix _)
  | remove dest => exact (show p = dest from h) ▸ hq
  | _ => exact absurd h (fun h => h)

/-- What is asked on behalf of another account changes nothing that an account sees. -/
theorem sameFor_other (hab : b ≠ a) (hq : Within s b q) : SameFor s a (serve c q m).2 m where
  files := fun p hp => fileAt_serve (fun h => not_seen hab (within_touches hq h) hp)
  dirs := by
    intro p hp
    cases q with
    | mkdirAll dir =>
      have hnot : ∀ q, p <+: q → q <+: dir → False := fun q h h' =>
        hab (s.home_unique hq (hp.trans (h.trans h')))
      have hsame : ∀ q, q <+: dir → (m.disk.makeDirs q).isDirAt p = m.disk.isDirAt p := by
        intro q hpre
        rw [Bool.eq_iff_iff, Disk.isDirAt_makeDirs]
        exact or_iff_left (fun h => hnot q h hpre)
      simp only [serve]
      split_ifs
      · exact hsame _ (List.take_prefix _ _)
      · rfl
      · exact hsame _ (List.prefix_refl _)
    | createTemp dir =>
      simp only [serve]
      split_ifs <;> rfl
    | write tmp data =>
      simp only [serve]
      split_ifs <;> rfl
    | rename tmp dest =>
      simp only [serve]
      split_ifs <;> rfl
    | remove dest =>
      simp only [serve]
      split_ifs <;> rfl
    | _ => rfl
  usage := by
    refine usages_serve (fun h => hab (account_ext ?_))
    cases q with
    | storeUsage account total => exact hq.symm.trans (show a.id = account from h).symm
    | deleteUsage account => exact hq.symm.trans (show a.id = account from h).symm
    | _ => exact h.elim

theorem SameFor.stat (h : SameFor s a m m') (hp : s.home a <+: p) : m.disk.stat p = m'.disk.stat p := by
  unfold Disk.stat
  rw [h.files p (Or.inl hp), h.dirs p hp]

theorem SameFor.under (h : SameFor s a m m') (hp : s.home a <+: p) (x : GoString) :
    m.disk.fileAt (p ++ [x]) = m'.disk.fileAt (p ++ [x]) ∧ m.disk.isDirAt (p ++ [x]) = m'.disk.isDirAt (p ++ [x]) :=
  ⟨h.files _ (Or.inl (hp.trans (List.prefix_append _ _))), h.dirs _ (hp.trans (List.prefix_append _ _))⟩

/-- What is asked on behalf of an account is answered from what the account sees. -/
theorem sameFor_own (h : SameFor s a m m') (hq : Within s a q) :
    (serve c q m).1 = (serve c q m').1 ∧ SameFor s a (serve c q m).2 (serve c q m').2 := by
  cases q with
  | ctxErr => exact ⟨rfl, h⟩
  | lock account => exact ⟨rfl, h⟩
  | unlock account => exact ⟨rfl, h⟩
  | sync tmp => exact ⟨rfl, h⟩
  | close tmp => exact ⟨rfl, h⟩
  | loadUsage account =>
    have hq : account = a.id := hq
    subst hq
    exact ⟨h.usage, h⟩
  | storeUsage account total =>
    have hq : account = a.id := hq
    subst hq
    exact ⟨rfl, h.setUsage _⟩
  | deleteUsage account =>
    have hq : account = a.id := hq
    subst hq
    exact ⟨rfl, h.setUsage _⟩
  | readFile p =>
    refine ⟨?_, h⟩
    simp only [serve, h.files p (Or.inl hq), h.dirs p hq]
  | lstat p =>
    refine ⟨?_, h⟩
    simp only [serve, h.stat hq]
  | info p =>
    refine ⟨?_, h⟩
    simp only [serve, h.stat hq]
  | readDir p =>
    have hentries : m.disk.entries p = m'.disk.entries p :=
      entries_congr (fun x => congrArg Option.isSome (h.under hq x).1) (fun x => (h.under hq x).2)
    refine ⟨?_, h⟩
    simp only [serve, h.files p (Or.inl hq), h.dirs p hq, hentries]
  | chmod tmp =>
    refine ⟨?_, h⟩
    simp only [serve, h.files tmp (Or.inl hq)]
  | mkdirAll p =>
    have hany : (p.inits.any fun q => (m.disk.fileAt q).isSome) = p.inits.any fun q => (m'.disk.fileAt q).isSome := by
      rw [Bool.eq_iff_iff, List.any_eq_true, List.any_eq_true]
      refine exists_congr (fun q => and_congr_right (fun hin => ?_))
      rw [h.files q (List.prefix_or_prefix_of_prefix hq ((List.mem_inits q p).mp hin))]
    simp only [serve, hany]
    split_ifs
    · exact ⟨rfl, h.makeDirs _⟩
    · exact ⟨rfl, h⟩
    · exact ⟨rfl, h.makeDirs _⟩
  | createTemp dir =>
    simp only [serve, (h.under hq c.tempName).1, h.dirs dir hq]
    split_ifs
    · exact ⟨rfl, h⟩
    · exact ⟨rfl, h⟩
    · exact ⟨rfl, h⟩
    · exact ⟨rfl, h.create _ _⟩
  | write tmp data =>
    simp only [serve, h.files tmp (Or.inl hq)]
    split_ifs
    · exact ⟨rfl, h⟩
    · exact ⟨rfl, h.create _ _⟩
    · exact ⟨rfl, h.create _ _⟩
  | rename tmp p =>
    have hp : s.home a <+: p := hq.2.trans (List.dropLast_prefix p)
    simp only [serve, h.files tmp (Or.inl hq.1), h.dirs p hp, h.dirs p.dropLast hq.2]
    split_ifs
    · exact ⟨rfl, h⟩
    · exact ⟨rfl, h⟩
    · exact ⟨rfl, (h.delete tmp).create p _⟩
  | remove p =>
    simp only [serve, h.files p (Or.inl hq), h.dirs p hq]
    split_ifs
    · exact ⟨rfl, h⟩
    · exact ⟨rfl, h⟩
    · exact ⟨rfl, h.delete p⟩

theorem gets_serve (hq : Within s a q) : Gets s a q (.ok (serve c q m).1) := by
  cases q with
  | createTemp dir =>
    simp only [serve]
    split_ifs
    · trivial
    · trivial
    · trivial
    · exact List.IsPrefix.trans hq (List.prefix_append _ _)
  | _ => trivial

/-! ## The programs of an account -/

variable (s a) in
/-- A program asks on behalf of an account only. -/
def Keeps {α : Type} (p : Fs α) : Prop := p.Guarded (Within s a) (Gets s a) (fun _ => True)

section Programs

variable {α β σ : Type}

theorem keeps_pure (x : α) : Keeps s a (.pure x) := trivial

theorem keeps_throw (e : StoreError) : Keeps s a (.throw e : Fs α) := trivial

theorem keeps_bind {p : Fs α} {f : α → Fs β} (h : Keeps s a p) (hf : ∀ x, Keeps s a (f x)) : Keeps s a (p.bind f) :=
  Prog.Guarded.bind (Prog.Guarded.mono h (fun x _ => hf x))

theorem keeps_ask {q : FsRequest} {f : q.Reply → Fs β} (hq : Within s a q) (hf : ∀ r, Keeps s a (f r)) :
    Keeps s a ((Fs.ask q).bind f) := Prog.Guarded.request hq (fun r _ => hf r)

theorem keeps_ask_last {q : FsRequest} (hq : Within s a q) : Keeps s a (Fs.ask q) :=
  Prog.Guarded.request_last hq (fun _ _ => trivial)

theorem keeps_attempt {p : Fs α} (h : Keeps s a p) : Keeps s a (Fs.attempt p) :=
  Prog.Guarded.tryCatch (keeps_bind h (fun _ => keeps_pure _)) (fun _ => keeps_pure _)

theorem keeps_ofExcept (r : Except StoreError α) : Keeps s a (Fs.ofExcept r) := by
  cases r with
  | ok x => exact keeps_pure x
  | error e => exact keeps_throw e

theorem keeps_check {step : GoString} (r : Except FsError α) : Keeps s a (Fs.check step r) := by
  cases r with
  | ok x => exact keeps_pure x
  | error e => exact keeps_throw _

/-- Walks, by induction on the depth: whatever is found in a directory of the account is in it. -/
theorem keeps_walkDir {fn : WalkFunc σ} (hfn : ∀ acc p d err, s.home a <+: p → Keeps s a (fn acc p d err)) :
    ∀ (depth : ℕ) (p : Path) (d : Entry) (acc : σ), s.home a <+: p → Keeps s a (walkDir fn depth p d acc)
  | 0, _, _, _, _ => keeps_throw _
  | depth + 1, p, d, acc, hp => by
    unfold walkDir
    refine keeps_bind (hfn acc p d none hp) (fun v => ?_)
    cases v with
    | next acc =>
      cases d.isDir with
      | false => exact keeps_pure _
      | true =>
        refine keeps_ask (q := .readDir p) hp (fun r => ?_)
        cases r with
        | error e => exact hfn acc p d (some e) hp
        | ok entries =>
          refine Prog.Guarded.foldlM (fun _ => True) entries (Visit.next acc) trivial (fun v e _ _ => ?_)
          cases v with
          | next acc => exact keeps_walkDir hfn depth (p ++ [e.name]) e acc (hp.trans (List.prefix_append _ _))
          | _ => exact keeps_pure _
    | _ => exact keeps_pure _

theorem keeps_WalkDir {fn : WalkFunc σ} (hfn : ∀ acc p d err, s.home a <+: p → Keeps s a (fn acc p d err)) (depth : ℕ)
    (acc : σ) : Keeps s a (WalkDir fn depth (s.home a) acc) := by
  unfold WalkDir
  refine keeps_ask (q := .lstat (s.home a)) (List.prefix_refl _) (fun r => ?_)
  cases r with
  | error e => exact hfn _ _ _ _ (List.prefix_refl _)
  | ok info => exact keeps_walkDir hfn depth _ _ acc (List.prefix_refl _)

theorem keeps_usage : Keeps s a (s.usage a.id) := by
  unfold FSStore.usage
  refine keeps_ask (q := .loadUsage a.id) rfl (fun r => ?_)
  cases r with
  | some used => exact keeps_pure used
  | none =>
    simp only [s.path_home, Prog.pure_def, Prog.bind_def, Prog.pure_bind]
    refine keeps_bind (keeps_WalkDir (fun total p d err hp => ?_) _ _) (fun v => ?_)
    · unfold FSStore.usageFn
      cases err with
      | some e => cases e <;> exact keeps_pure _
      | none =>
        by_cases hd : d.isDir = true
        · simp only [hd, if_true]
          exact keeps_pure _
        · simp only [hd, Bool.false_eq_true, if_false]
          refine keeps_ask (q := .info p) hp (fun r => ?_)
          cases r <;> exact keeps_pure _
    · have hstore : ∀ total, Keeps s a ((Fs.ask (.storeUsage a.id total)).bind (fun _ => pure total)) := fun total =>
        keeps_ask (q := .storeUsage a.id total) rfl (fun _ => keeps_pure _)
      cases v with
      | fail e total =>
        by_cases he : e = .fs .notExist
        · simp only [he, if_true]
          exact hstore total
        · simp only [he, if_false]
          exact keeps_throw _
      | next total => exact hstore total
      | skipAll total => exact hstore total

/-- Objects are stored in directories of their account. -/
theorem home_prefix_dir {name : GoString} (hn : validateName name = .ok ()) : s.home a <+: (s.place a name).dropLast := by
  obtain ⟨rest, hrest, -⟩ := place_split (s := s) a hn
  refine ⟨rest, ?_⟩
  rw [hrest]
  unfold FSStore.home
  simp

theorem keeps_fill {tmp : Path} {name data : GoString} (htmp : s.home a <+: tmp) (hn : validateName name = .ok ()) :
    Keeps s a (FSStore.fill a.id tmp (s.place a name) data) := by
  have hplace : s.home a <+: (s.place a name).dropLast := home_prefix_dir hn
  have hclose : ∀ step e, Keeps s a ((Fs.ask (.close tmp)).bind (fun _ => (.throw (.storage step e) : Fs Unit))) :=
    fun step e => keeps_ask (q := .close tmp) htmp (fun _ => keeps_throw _)
  unfold FSStore.fill
  refine keeps_ask (q := .write tmp data) htmp (fun r => ?_)
  cases r with
  | error e => exact hclose _ _
  | ok u =>
    refine keeps_ask (q := .sync tmp) htmp (fun r => ?_)
    cases r with
    | error e => exact hclose _ _
    | ok u =>
      refine keeps_ask (q := .close tmp) htmp (fun r => keeps_bind (keeps_check r) (fun _ => ?_))
      refine keeps_ask (q := .chmod tmp) htmp (fun r => keeps_bind (keeps_check r) (fun _ => ?_))
      refine keeps_ask (q := .rename tmp (s.place a name)) ⟨htmp, hplace⟩ (fun r => keeps_bind (keeps_check r) (fun _ => ?_))
      exact keeps_ask_last rfl

theorem keeps_store {name data : GoString} (hn : validateName name = .ok ()) :
    Keeps s a (FSStore.store a.id (s.place a name) data) := by
  have hdir : s.home a <+: (s.place a name).dropLast := home_prefix_dir hn
  unfold FSStore.store
  refine keeps_ask (q := .mkdirAll _) hdir (fun r => keeps_bind (keeps_check r) (fun _ => ?_))
  refine Prog.Guarded.request (q := FsRequest.createTemp _) hdir (fun r hr => ?_)
  cases r with
  | error e => exact keeps_throw _
  | ok tmp =>
    have htmp : s.home a <+: tmp := hr
    show Keeps s a ((Fs.attempt (FSStore.fill a.id tmp (s.place a name) data)).bind
      (fun r => (Fs.ask (.remove tmp)).bind (fun _ => Fs.ofExcept r)))
    refine keeps_bind (keeps_attempt (keeps_fill htmp hn)) (fun r => ?_)
    exact keeps_ask (q := .remove tmp) htmp (fun _ => keeps_ofExcept r)

theorem keeps_alive : Keeps s a FSStore.alive := by
  refine keeps_ask (q := .ctxErr) trivial (fun (b : Bool) => ?_)
  cases b with
  | true => exact keeps_throw _
  | false => exact keeps_pure _

/-- A name that is not valid is not asked about. -/
theorem keeps_named {name : GoString} {f : Unit → Fs β} (h : validateName name = .ok () → Keeps s a (f ())) :
    Keeps s a ((FSStore.validName name).bind f) := by
  unfold FSStore.validName
  cases hn : validateName name with
  | error fault => exact keeps_throw _
  | ok u => exact h hn

theorem keeps_Put (name data : GoString) : Keeps s a (s.Put a.id name data) := by
  unfold FSStore.Put
  refine keeps_named (fun hn => ?_)
  simp only [s.path_place a hn, Prog.pure_def, Prog.bind_def, Prog.pure_bind]
  refine keeps_ask (q := .lock a.id) rfl (fun _ => keeps_bind (keeps_attempt ?_) (fun r => ?_))
  · unfold FSStore.putLocked
    refine keeps_bind keeps_alive (fun _ => keeps_ask (q := .readFile (s.place a name)) (s.home_prefix_place a name) (fun r => ?_))
    cases r with
    | ok existing =>
      by_cases hsame : existing = data
      · simp only [hsame, if_true]
        exact keeps_pure _
      · simp only [hsame, if_false]
        exact keeps_throw _
    | error e =>
      cases e with
      | other => exact keeps_throw _
      | notExist =>
        refine keeps_bind ?_ (fun _ => keeps_store hn)
        unfold FSStore.withinQuota
        by_cases hq : 0 < s.quota
        · simp only [hq, if_true]
          refine keeps_bind keeps_usage (fun used => ?_)
          by_cases hover : (used : ℤ) + data.length > s.quota
          · simp only [hover, if_true]
            exact keeps_throw _
          · simp only [hover, if_false]
            exact keeps_pure _
        · simp only [hq, if_false]
          exact keeps_pure _
  · exact keeps_ask (q := .unlock a.id) rfl (fun _ => keeps_ofExcept r)

theorem keeps_Get (name : GoString) : Keeps s a (s.Get a.id name) := by
  unfold FSStore.Get
  refine keeps_named (fun hn => keeps_bind keeps_alive (fun _ => ?_))
  simp only [s.path_place a hn, Prog.pure_def, Prog.bind_def, Prog.pure_bind]
  refine keeps_ask (q := .readFile (s.place a name)) (s.home_prefix_place a name) (fun r => ?_)
  cases r with
  | ok data => exact keeps_pure _
  | error e => cases e <;> exact keeps_throw _

theorem keeps_Delete (name : GoString) : Keeps s a (s.Delete a.id name) := by
  unfold FSStore.Delete
  refine keeps_named (fun hn => keeps_bind keeps_alive (fun _ => ?_))
  simp only [s.path_place a hn, Prog.pure_def, Prog.bind_def, Prog.pure_bind]
  refine keeps_ask (q := .lock a.id) rfl (fun _ => keeps_bind (keeps_attempt ?_) (fun r => ?_))
  · unfold FSStore.deleteLocked
    refine keeps_ask (q := .remove (s.place a name)) (s.home_prefix_place a name) (fun r => ?_)
    have hforget : Keeps s a (Fs.ask (.deleteUsage a.id)) := keeps_ask_last rfl
    cases r with
    | ok u => exact hforget
    | error e =>
      cases e with
      | other => exact keeps_throw _
      | notExist => exact hforget
  · exact keeps_ask (q := .unlock a.id) rfl (fun _ => keeps_ofExcept r)

theorem keeps_List (pre cursor : GoString) (limit : ℤ) : Keeps s a (s.List a.id pre cursor limit) := by
  unfold FSStore.List FSStore.validPrefix
  cases hv : validatePrefix pre with
  | error fault => exact keeps_throw _
  | ok u =>
    simp only [s.path_home, Prog.pure_def, Prog.bind_def, Prog.pure_bind]
    refine keeps_bind (keeps_WalkDir (fun objects p d err hp => ?_) _ _) (fun v => keeps_bind ?_ (fun _ => keeps_pure _))
    · unfold FSStore.listFn
      cases err with
      | some e => cases e <;> exact keeps_pure _
      | none =>
        refine keeps_ask (q := .ctxErr) trivial (fun (b : Bool) => ?_)
        dsimp only
        split_ifs
        · exact keeps_pure _
        · exact keeps_pure _
        · exact keeps_pure _
        · refine keeps_ask (q := .info p) hp (fun r => ?_)
          cases r <;> exact keeps_pure _
    · cases v with
      | fail e objects =>
        show Keeps s a (if e = .fs .notExist then pure objects else throw (.storage (go "list") e))
        split_ifs
        · exact keeps_pure _
        · exact keeps_throw _
      | _ => exact keeps_pure _

theorem keeps_respond {p : Fs α} (opts : Options) (h : Keeps s a p) (f : α → Sent) : Keeps s a (respond opts p f) := by
  unfold respond
  refine keeps_bind (keeps_attempt h) (fun r => ?_)
  cases r with
  | ok x => exact keeps_pure _
  | error e => cases e <;> first | exact keeps_pure _ | exact keeps_throw _

/-- The handlers ask on behalf of the account that they are given. -/
theorem keeps_handle (opts : Options) (r : Request) : Keeps s a (handle s opts a.id r) := by
  unfold handle
  cases r.endpoint with
  | list pre cursor limit =>
    show Keeps s a (handleList s opts a.id pre cursor limit)
    unfold handleList
    cases listLimit limit with
    | none => exact keeps_pure _
    | some n => exact keeps_respond opts (keeps_List pre cursor n) _
  | get name => exact keeps_respond opts (keeps_Get name) _
  | put name body =>
    show Keeps s a (handlePut s opts a.id name body)
    unfold handlePut
    cases body with
    | none => exact keeps_pure _
    | some data =>
      simp only
      split_ifs
      · exact keeps_pure _
      · exact keeps_pure _
      · exact keeps_respond opts (keeps_Put name data) _
  | delete name => exact keeps_respond opts (keeps_Delete name) _

end Programs

end Accounts

/-! ## The server -/

/-- A request, with how what is asked for it is served. -/
structure Incoming where
  request : Request
  choices : ℕ → Choice

/-- What is asked for a request is served by its choices in turn. -/
def inTurn (choices : ℕ → Choice) (q : FsRequest) (m : Machine × ℕ) : Except StoreError q.Reply × (Machine × ℕ) :=
  (.ok (serve (choices m.2) q m.1).1, ((serve (choices m.2) q m.1).2, m.2 + 1))

variable (s : FSStore) (opts : Options) (registry : Registry)

/-- Requests are answered one after the other, each on behalf of its account. -/
def server : Service (Option GoString) Incoming (Except StoreError Sent) Machine where
  domain r := accountOf opts registry r.request
  serve r m := (((authenticated opts s registry r.request).run (inTurn r.choices) (m, 0)).1,
    ((authenticated opts s registry r.request).run (inTurn r.choices) (m, 0)).2.1)

/-- What the requests of a domain see of a machine. -/
def Looks (d : Option GoString) (m m' : Machine) : Prop :=
  ∀ a : Account, d = some a.id → SameFor s a m m'

variable {s opts registry}

theorem lookup_valid (h : registry.Valid) {token account : GoString} (hl : registry.lookup opts token = some account) :
    validAccountID account = .ok () := by
  unfold Registry.lookup at hl
  split_ifs at hl
  obtain ⟨e, he, rfl⟩ := Option.map_eq_some_iff.mp hl
  exact h e (Table.get?_eq_some.mp he).1

theorem authenticated_some {r : Request} {a : Account} (h : accountOf opts registry r = some a.id) :
    Keeps s a (authenticated opts s registry r) := by
  unfold authenticated
  rw [h]
  exact keeps_handle opts r

theorem run_authenticated_none {r : Request} (h : accountOf opts registry r = none) (choices : ℕ → Choice) (m : Machine × ℕ) :
    (authenticated opts s registry r).run (inTurn choices) m =
      (.ok (writeJSON 401 [(go "WWW-Authenticate", go "Bearer realm=\"easy-docket\"")]
        (.error (go "invalid or missing bearer token"))), m) := by
  unfold authenticated
  rw [h]
  rfl

/-- The requests of an account show and change only what the account sees. -/
theorem unwinds_server (h : registry.Valid) : (server s opts registry).Unwinds (Looks s) where
  refl _ m a _ := SameFor.refl m
  trans h h' a ha := (h a ha).trans (h' a ha)
  own := by
    intro r m m' hlooks
    show _ = _ ∧ Looks s (accountOf opts registry r.request) _ _
    cases hd : accountOf opts registry r.request with
    | none =>
      refine ⟨?_, fun a ha => absurd ha nofun⟩
      show ((authenticated opts s registry r.request).run _ (m, 0)).1 = ((authenticated opts s registry r.request).run _ (m', 0)).1
      rw [run_authenticated_none hd, run_authenticated_none hd]
    | some id =>
      obtain ⟨a, rfl⟩ : ∃ a : Account, a.id = id := ⟨⟨id, lookup_valid h hd⟩, rfl⟩
      have hsame : SameFor s a m m' := hlooks a hd
      have hrun := (authenticated_some (s := s) hd).run_both (H := inTurn r.choices)
        (R := fun x y => x.2 = y.2 ∧ SameFor s a x.1 y.1)
        (fun q x y hq hxy => by
          obtain ⟨hturn, hxy⟩ := hxy
          obtain ⟨hreply, hafter⟩ := sameFor_own (c := r.choices y.2) hxy hq
          unfold inTurn
          rw [hturn]
          exact ⟨congrArg Except.ok hreply, gets_serve hq, rfl, hafter⟩)
        (s := (m, 0)) (t := (m', 0)) ⟨rfl, hsame⟩
      refine ⟨hrun.1, fun b hb => ?_⟩
      have hba : b = a := account_ext (Option.some.inj hb).symm
      exact hba ▸ hrun.2.2
  others := by
    intro r d m hne b hb
    change accountOf opts registry r.request ≠ d at hne
    cases hd : accountOf opts registry r.request with
    | none =>
      show SameFor s b ((authenticated opts s registry r.request).run _ (m, 0)).2.1 m
      rw [run_authenticated_none hd]
      exact SameFor.refl m
    | some id =>
      obtain ⟨a, rfl⟩ : ∃ a : Account, a.id = id := ⟨⟨id, lookup_valid h hd⟩, rfl⟩
      have hab : a ≠ b := by
        rintro rfl
        exact hne (hd.trans hb.symm)
      exact (authenticated_some (s := s) hd).run_keeps (H := inTurn r.choices) (I := fun x => SameFor s b x.1 m)
        (fun q x hq hx => ⟨gets_serve hq, (sameFor_other hab hq).trans hx⟩) (SameFor.refl m)

/-! ## Paths -/

/-- A path is below a directory: no segment of it leads out. -/
def Inside (dir p : GoString) : Prop :=
  ∃ segs rest, dir = absolute segs ∧ p = absolute (segs ++ rest) ∧ rest ≠ [] ∧ ∀ x ∈ segs ++ rest, Normal x

variable (s opts registry) in
/-- Accounts are isolated: what is answered to one is what would be answered to it alone, and every object of every account
has a file of its own below the root. -/
structure Isolates : Prop where
  alone : ∀ (account : GoString) (requests : List Incoming) (m : Machine),
    (server s opts registry).answersTo (some account) requests m =
      (server s opts registry).answers (requests.filter (fun r => accountOf opts registry r.request = some account)) m
  injective : ∀ account name account' name' p, validAccountID account = .ok () → validAccountID account' = .ok () →
    validateName name = .ok () → validateName name' = .ok () →
    Server.path s.root account name = .ok p → Server.path s.root account' name' = .ok p → account = account' ∧ name = name'
  inside : ∀ account name, validAccountID account = .ok () → validateName name = .ok () →
    ∃ p, Server.path s.root account name = .ok p ∧ Inside s.root p

/-- Every tokens file that is accepted isolates its accounts. -/
theorem isolates_of_parseTokens {file : GoString} (h : parseTokens file = .ok registry) : Isolates s opts registry := by
  refine ⟨fun account requests m => ?_, fun account name account' name' p ha ha' hn hn' hp hp' => ?_, fun account name ha hn => ?_⟩
  · exact Service.answersTo_filter (unwinds_server (valid_parseTokens h)) (some account) requests m
  · rw [s.path_object ⟨account, ha⟩ hn] at hp
    rw [s.path_object ⟨account', ha'⟩ hn', ← hp] at hp'
    have hplace := absolute_injective (s.normal_place _ hn') (s.normal_place _ hn) (Except.ok.inj hp')
    exact (objectPath_injective s.base hplace.symm)
  · refine ⟨_, s.path_object ⟨account, ha⟩ hn, s.base, account :: splitSlash name, s.root_eq.1, rfl, List.cons_ne_nil _ _, ?_⟩
    exact s.normal_place ⟨account, ha⟩ hn

/-! ### A file of two tokens -/

def alphaHash : GoString := go "8ed3f6ad685b959ead7022518e1af76cd816f8e8ec7ccdda1ed4018e8f2223f8"

def betaHash : GoString := go "f44e64e75f3948e9f73f8dfa94721c4ce8cbb4f265c4790c702b2d41cfbf2753"

/-- The hashes of the tokens `alpha` and `beta`. -/
def tokenOptions : Options where
  maxObjectSize := 0
  sha256 token := ((if token = go "alpha" then hexDecode alphaHash else if token = go "beta" then hexDecode betaHash else none)).getD []
  quoteRune := id

def sampleTokens : GoString :=
  go "# tokens\n\nalice:" ++ alphaHash ++ go "\n bob : " ++ betaHash ++ go "\n"

def requestOf (header : GoString) : Request := ⟨header, [], .list [] [] []⟩

/-- Whether the file is accepted, and has the accounts of both tokens. -/
def distinguishes (file : GoString) : Bool :=
  match parseTokens file with
  | .ok registry => accountOf tokenOptions registry (requestOf (go "Bearer alpha")) = some (go "alice") &&
      accountOf tokenOptions registry (requestOf (go "bearer beta")) = some (go "bob") &&
      accountOf tokenOptions registry (requestOf (go "alpha")) = none
  | .error _ => false

theorem isolates_sample : distinguishes sampleTokens = true ∧
    ∃ registry, parseTokens sampleTokens = .ok registry ∧ Isolates (sampleStore 10) tokenOptions registry := by
  have hloads : distinguishes sampleTokens = true := by decide +kernel
  refine ⟨hloads, ?_⟩
  unfold distinguishes at hloads
  split at hloads
  · rename_i registry hparse
    exact ⟨registry, hparse, isolates_of_parseTokens hparse⟩
  · cases hloads

end Server

end EasyDocket
