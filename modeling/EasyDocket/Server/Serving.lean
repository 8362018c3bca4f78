import EasyDocket.Server.Files

/-!
# A disk that serves the store

How the requests of the store are served by a disk and a cache of usages, with the failures that may strike any call,
and what the disks that the store writes look like: objects and temporary files five levels below the root, in
directories that are all there.
-/

namespace EasyDocket

namespace Server

/-- How a call goes, as far as the disk leaves it open. -/
structure Choice where
  fails : Bool
  givenUp : Bool
  /-- How many directories a failed `MkdirAll` has made. -/
  made : ℕ
  /-- What a failed `Write` has written. -/
  written : GoString
  /-- The random part of the last name that `CreateTemp` tries. -/
  suffix : GoString
  digits : ∀ c ∈ suffix, isDigit c = true

/-- Every call succeeds. -/
def Choice.smooth : Choice := ⟨false, false, 0, [], [], fun _ h => absurd h List.not_mem_nil⟩

/-- The call fails, with nothing made or written. -/
def Choice.failing : Choice := { Choice.smooth with fails := true }

/-- What the calls act on. -/
structure Machine where
  disk : Disk
  usages : GoString → Option ℕ

def tempMark : GoString := go ".tmp-"

/-- A name that `CreateTemp` makes. -/
def IsTemp (name : GoString) : Prop := tempMark <+: name

instance (name : GoString) : Decidable (IsTemp name) := inferInstanceAs (Decidable (_ <+: _))

def Choice.tempName (c : Choice) : GoString := tempMark ++ c.suffix

namespace Machine

def setDisk (m : Machine) (disk : Disk) : Machine := { m with disk := disk }

def setUsage (m : Machine) (account : GoString) (total : Option ℕ) : Machine :=
  { m with usages := Function.update m.usages account total }

end Machine

open Machine in
/-- How a request is served. -/
def serve (c : Choice) : (q : FsRequest) → Machine → q.Reply × Machine
  | .ctxErr, m => (c.givenUp, m)
  | .lock _, m => ((), m)
  | .unlock _, m => ((), m)
  | .loadUsage account, m => (m.usages account, m)
  | .storeUsage account total, m => ((), m.setUsage account (some total))
  | .deleteUsage account, m => ((), m.setUsage account none)
  | .readFile p, m =>
    (if c.fails then .error .other
      else match m.disk.fileAt p with
        | some content => .ok content
        | none => .error (if m.disk.isDirAt p then .other else .notExist), m)
  | .mkdirAll p, m =>
    if c.fails then (.error .other, m.setDisk (m.disk.makeDirs (p.take c.made)))
    else if p.inits.any (fun q => (m.disk.fileAt q).isSome) then (.error .other, m)
    else (.ok (), m.setDisk (m.disk.makeDirs p))
  | .createTemp dir, m =>
    if c.fails then (.error .other, m)
    else if m.disk.isDirAt dir = false then (.error .notExist, m)
    else if (m.disk.fileAt (dir ++ [c.tempName])).isSome then (.error .other, m)
    else (.ok (dir ++ [c.tempName]), m.setDisk (m.disk.create (dir ++ [c.tempName]) []))
  | .write tmp data, m =>
    if m.disk.fileAt tmp = none then (.error .notExist, m)
    else if c.fails then (.error .other, m.setDisk (m.disk.create tmp c.written))
    else (.ok (), m.setDisk (m.disk.create tmp data))
  | .sync _, m => (if c.fails then .error .other else .ok (), m)
  | .close _, m => (if c.fails then .error .other else .ok (), m)
  | .chmod tmp, m =>
    (if c.fails then .error .other else if m.disk.fileAt tmp = none then .error .notExist else .ok (), m)
  | .rename tmp p, m =>
    if c.fails ∨ m.disk.isDirAt p = true then (.error .other, m)
    else if m.disk.fileAt tmp = none ∨ m.disk.isDirAt p.dropLast = false then (.error .notExist, m)
    else (.ok (), m.setDisk ((m.disk.delete tmp).create p ((m.disk.fileAt tmp).getD [])))
  -- of a directory it is never asked
  | .remove p, m =>
    if c.fails ∨ m.disk.isDirAt p = true then (.error .other, m)
    else if m.disk.fileAt p = none then (.error .notExist, m)
    else (.ok (), m.setDisk (m.disk.delete p))
  | .lstat p, m => (if c.fails then .error .other else m.disk.stat p, m)
  | .readDir p, m =>
    (if c.fails then .error .other
      else if m.disk.isDirAt p then .ok (m.disk.entries p)
      else if (m.disk.fileAt p).isSome then .error .other
      else .error .notExist, m)
  | .info p, m => (if c.fails then .error .other else m.disk.stat p, m)

/-- Whether a choice lets a call fail. -/
def Choice.strikes (c : Choice) (q : FsRequest) (m : Machine) : Bool :=
  match q with
  | .createTemp dir => c.fails || (m.disk.fileAt (dir ++ [c.tempName])).isSome
  | _ => c.fails

/-! ## Files and directories -/

namespace Disk

variable {disk : Disk} {p q : Path} {content : GoString}

theorem fileAt_create : (disk.create p content).fileAt q = if q = p then some content else disk.fileAt q := by
  show ((disk.files.put ⟨p, content⟩).get? q).map File.content = _
  rw [Table.get?_put]
  split_ifs <;> rfl

theorem fileAt_delete : (disk.delete p).fileAt q = if q = p then none else disk.fileAt q := by
  show ((disk.files.delete p).get? q).map File.content = _
  rw [Table.get?_delete]
  split_ifs <;> rfl

@[simp] theorem isDirAt_create : (disk.create p content).isDirAt q = disk.isDirAt q := rfl

@[simp] theorem isDirAt_delete : (disk.delete p).isDirAt q = disk.isDirAt q := rfl

@[simp] theorem fileAt_makeDirs : (disk.makeDirs p).fileAt q = disk.fileAt q := rfl

theorem isDirAt_iff : disk.isDirAt q = true ↔ q ∈ disk.dirs := by
  show (disk.dirs.get? q).isSome = true ↔ _
  rw [Option.isSome_iff_exists]
  constructor
  · rintro ⟨r, hr⟩
    obtain ⟨hm, hk⟩ := Table.get?_eq_some.mp hr
    exact hk ▸ hm
  · exact fun h => ⟨q, Table.get?_eq_some.mpr ⟨h, rfl⟩⟩

theorem mem_foldl_put (l : List Path) : ∀ {t : Table (fun p : Path => p)},
    q ∈ l.foldl Table.put t ↔ q ∈ t ∨ q ∈ l := by
  induction l with
  | nil => simp
  | cons r l ih =>
    intro t
    rw [List.foldl_cons, ih, Table.mem_put, List.mem_cons]
    constructor
    · rintro ((h | h) | h)
      · exact Or.inr (Or.inl h)
      · exact Or.inl h.1
      · exact Or.inr (Or.inr h)
    · rintro (h | h | h)
      · by_cases hr : q = r
        · exact Or.inl (Or.inl hr)
        · exact Or.inl (Or.inr ⟨h, hr⟩)
      · exact Or.inl (Or.inl h)
      · exact Or.inr h

theorem isDirAt_makeDirs : (disk.makeDirs p).isDirAt q = true ↔ disk.isDirAt q = true ∨ q <+: p := by
  rw [isDirAt_iff, isDirAt_iff]
  show q ∈ p.inits.foldl Table.put disk.dirs ↔ _
  rw [mem_foldl_put, List.mem_inits]

theorem fileAt_eq_some : disk.fileAt p = some content ↔ (⟨p, content⟩ : File) ∈ disk.files := by
  show (disk.files.get? p).map File.content = some content ↔ _
  rw [Option.map_eq_some_iff]
  constructor
  · rintro ⟨f, hf, rfl⟩
    obtain ⟨hm, rfl⟩ := Table.get?_eq_some.mp hf
    exact hm
  · exact fun h => ⟨⟨p, content⟩, Table.get?_eq_some.mpr ⟨h, rfl⟩, rfl⟩

theorem childOf_eq_some {name : GoString} : childOf p q = some name ↔ q = p ++ [name] := by
  unfold childOf
  constructor
  · intro h
    cases hr : q.reverse with
    | nil => simp [hr] at h
    | cons x rest =>
      rw [hr] at h
      simp only [Option.ite_none_right_eq_some, Option.some.injEq] at h
      rw [← List.reverse_reverse q, hr, List.reverse_cons, h.1, h.2]
  · rintro rfl
    simp

/-- What a directory is read as. -/
theorem mem_entries {e : Entry} : e ∈ disk.entries p ↔
    (e.isDir = false ∧ (disk.fileAt (p ++ [e.name])).isSome = true) ∨ (e.isDir = true ∧ disk.isDirAt (p ++ [e.name]) = true) := by
  unfold entries
  rw [List.mem_insertionSort, List.mem_append, List.mem_filterMap, List.mem_filterMap]
  refine or_congr ⟨?_, ?_⟩ ⟨?_, ?_⟩
  · rintro ⟨f, hf, he⟩
    obtain ⟨name, hn, rfl⟩ := Option.map_eq_some_iff.mp he
    have hp := childOf_eq_some.mp hn
    refine ⟨rfl, ?_⟩
    rw [← hp]
    exact Option.isSome_iff_exists.mpr ⟨f.content, fileAt_eq_some.mpr hf⟩
  · rintro ⟨hd, hf⟩
    obtain ⟨content, hc⟩ := Option.isSome_iff_exists.mp hf
    refine ⟨⟨p ++ [e.name], content⟩, fileAt_eq_some.mp hc, ?_⟩
    rw [childOf_eq_some.mpr rfl, ← hd]
    rfl
  · rintro ⟨q, hq, he⟩
    obtain ⟨name, hn, rfl⟩ := Option.map_eq_some_iff.mp he
    have hp := childOf_eq_some.mp hn
    refine ⟨rfl, ?_⟩
    rw [← hp]
    exact isDirAt_iff.mpr hq
  · rintro ⟨hd, hq⟩
    refine ⟨p ++ [e.name], isDirAt_iff.mp hq, ?_⟩
    rw [childOf_eq_some.mpr rfl, ← hd]
    rfl

theorem map_name_filterMap {ν : Type} (l : List ν) (f : ν → Path) (b : Bool) :
    (l.filterMap (fun x => (childOf p (f x)).map (fun name => (⟨name, b⟩ : Entry)))).map Entry.name =
      l.filterMap (fun x => childOf p (f x)) := by
  rw [List.map_filterMap]
  refine List.filterMap_congr (fun x _ => ?_)
  rw [Option.map_map]
  exact Option.map_id'

theorem nodup_children {ν : Type} {l : List ν} {f : ν → Path} (hl : l.Pairwise (fun a b => f a ≠ f b)) :
    (l.filterMap (fun x => childOf p (f x))).Nodup := by
  refine List.Pairwise.filterMap _ (fun a b hab x hx y hy hxy => ?_) hl
  exact hab ((childOf_eq_some.mp hx).trans (hxy ▸ (childOf_eq_some.mp hy).symm))

/-- The entries of a directory have different names, if no file is where a directory is. -/
theorem nodup_entries (h : ∀ q, (disk.fileAt q).isSome = true → disk.isDirAt q = false) :
    ((disk.entries p).map Entry.name).Nodup := by
  unfold entries
  rw [((List.perm_insertionSort _ _).map Entry.name).nodup_iff, List.map_append, List.nodup_append,
    map_name_filterMap disk.files.rows File.path, map_name_filterMap disk.dirs.rows (fun q => q)]
  refine ⟨nodup_children (disk.files.sorted.imp (fun h => h.ne)), nodup_children (disk.dirs.sorted.imp (fun h => h.ne)), ?_⟩
  intro a ha b hb hab
  obtain ⟨f, hf, hfa⟩ := List.mem_filterMap.mp ha
  obtain ⟨q, hq, hqb⟩ := List.mem_filterMap.mp hb
  have hfile : (disk.fileAt f.path).isSome = true := Option.isSome_iff_exists.mpr ⟨f.content, fileAt_eq_some.mpr hf⟩
  have hdir : disk.isDirAt q = true := isDirAt_iff.mpr hq
  have hsame : f.path = q := by
    rw [childOf_eq_some.mp hfa, childOf_eq_some.mp hqb, hab]
  rw [hsame] at hfile
  rw [h q hfile] at hdir
  cases hdir

end Disk

/-! ## What the store keeps on the disk -/

/-- The file of an object. -/
def objectPath (base : Path) (account name : GoString) : Path := base ++ account :: splitSlash name

/-- Where the store puts files: objects, and temporary files in the directories of objects. -/
def Filed (base p : Path) : Prop :=
  ∃ account rest, validAccountID account = .ok () ∧ p = base ++ account :: rest ∧ rest.length = 4 ∧
    ((∃ name, validateName name = .ok () ∧ rest = splitSlash name) ∨ IsTemp (rest.getLastD []))

/-- Files are where the store puts them, directories above them. -/
structure Tidy (base : Path) (disk : Disk) : Prop where
  file : ∀ p, (disk.fileAt p).isSome = true → Filed base p
  dir : ∀ p, disk.isDirAt p = true → base <+: p → p.length ≤ base.length + 4
  above_file : ∀ p, (disk.fileAt p).isSome = true → disk.isDirAt p.dropLast = true
  above_dir : ∀ p, disk.isDirAt p = true → disk.isDirAt p.dropLast = true
  root : disk.isDirAt base = true

theorem Filed.base {base p : Path} (h : Filed base p) : base <+: p := by
  obtain ⟨account, rest, -, rfl, -, -⟩ := h
  exact List.prefix_append _ _

theorem Filed.length {base p : Path} (h : Filed base p) : p.length = base.length + 5 := by
  obtain ⟨account, rest, -, rfl, hlen, -⟩ := h
  rw [List.length_append, List.length_cons, hlen]

theorem filed_objectPath {base : Path} {account name : GoString} (ha : validAccountID account = .ok ())
    (hn : validateName name = .ok ()) : Filed base (objectPath base account name) := by
  obtain ⟨vault, file, hparts⟩ := validateName_ok hn
  refine ⟨account, splitSlash name, ha, rfl, ?_, Or.inl ⟨name, hn, rfl⟩⟩
  rw [hparts.split]
  rfl

namespace Tidy

variable {base : Path} {disk : Disk} {p : Path}

theorem not_dir (h : Tidy base disk) (hp : Filed base p) : disk.isDirAt p = false := by
  cases hd : disk.isDirAt p with
  | false => rfl
  | true =>
    have := h.dir p hd hp.base
    have := hp.length
    omega

theorem file_not_dir (h : Tidy base disk) (p : Path) (hp : (disk.fileAt p).isSome = true) : disk.isDirAt p = false :=
  h.not_dir (h.file p hp)

theorem create (h : Tidy base disk) (hp : Filed base p) (hd : disk.isDirAt p.dropLast = true) (content : GoString) :
    Tidy base (disk.create p content) where
  file := by
    intro q hq
    rw [Disk.fileAt_create] at hq
    split_ifs at hq with hqp
    · exact hqp ▸ hp
    · exact h.file q hq
  dir := h.dir
  above_file := by
    intro q hq
    rw [Disk.fileAt_create] at hq
    split_ifs at hq with hqp
    · exact hqp ▸ hd
    · exact h.above_file q hq
  above_dir := h.above_dir
  root := h.root

theorem delete (h : Tidy base disk) (p : Path) : Tidy base (disk.delete p) := by
  have hsub : ∀ q, ((disk.delete p).fileAt q).isSome = true → (disk.fileAt q).isSome = true := by
    intro q hq
    rw [Disk.fileAt_delete] at hq
    split_ifs at hq with hqp
    · cases hq
    · exact hq
  exact ⟨fun q hq => h.file q (hsub q hq), h.dir, fun q hq => h.above_file q (hsub q hq), h.above_dir, h.root⟩

theorem makeDirs (h : Tidy base disk) (hp : p.length ≤ base.length + 4) : Tidy base (disk.makeDirs p) where
  file := h.file
  dir := by
    intro q hq hb
    rcases Disk.isDirAt_makeDirs.mp hq with hq | hq
    · exact h.dir q hq hb
    · exact hq.length_le.trans hp
  above_file := fun q hq => Disk.isDirAt_makeDirs.mpr (Or.inl (h.above_file q hq))
  above_dir := by
    intro q hq
    rcases Disk.isDirAt_makeDirs.mp hq with hq | hq
    · exact Disk.isDirAt_makeDirs.mpr (Or.inl (h.above_dir q hq))
    · exact Disk.isDirAt_makeDirs.mpr (Or.inr ((List.dropLast_prefix q).trans hq))
  root := Disk.isDirAt_makeDirs.mpr (Or.inl h.root)

/-- Every directory above a directory is there. -/
theorem dir_of_prefix (h : Tidy base disk) {q : Path} (hp : disk.isDirAt p = true) (hq : q <+: p) :
    disk.isDirAt q = true := by
  induction p using List.reverseRecOn with
  | nil => rwa [List.prefix_nil.mp hq]
  | append_singleton p x ih =>
    rcases List.prefix_concat_iff.mp hq with rfl | hq
    · exact hp
    · refine ih ?_ hq
      have := h.above_dir _ hp
      rwa [List.dropLast_concat] at this

/-- Every directory above a file is there. -/
theorem dir_above (h : Tidy base disk) {q : Path} (hp : (disk.fileAt p).isSome = true) (hq : q <+: p) (hne : q ≠ p) :
    disk.isDirAt q = true := by
  refine h.dir_of_prefix (h.above_file p hp) ?_
  cases p using List.reverseRecOn with
  | nil => exact absurd (List.prefix_nil.mp hq) hne
  | append_singleton p x =>
    rw [List.dropLast_concat]
    exact (List.prefix_concat_iff.mp hq).resolve_left hne

end Tidy

/-! ## What replies say -/

section Replies

variable {c : Choice} {m : Machine} {p : Path}

/-- What a file is read as. -/
theorem readFile_reply : (serve c (.readFile p) m).1 =
    if c.fails = true then .error .other
    else match m.disk.fileAt p with
      | some content => .ok content
      | none => .error (if m.disk.isDirAt p = true then .other else .notExist) := rfl

theorem readFile_ok {data : GoString} (h : (serve c (.readFile p) m).1 = .ok data) :
    c.fails = false ∧ m.disk.fileAt p = some data := by
  rw [readFile_reply] at h
  cases hf : c.fails <;> cases hp : m.disk.fileAt p <;> rw [hf, hp] at h
  · cases h
  · exact ⟨rfl, congrArg some (Except.ok.inj h)⟩
  · cases h
  · cases h

theorem readFile_notExist (h : (serve c (.readFile p) m).1 = .error .notExist) :
    c.fails = false ∧ m.disk.fileAt p = none := by
  rw [readFile_reply] at h
  cases hf : c.fails <;> cases hp : m.disk.fileAt p <;> rw [hf, hp] at h
  · exact ⟨rfl, rfl⟩
  · cases h
  · cases h
  · cases h

theorem readFile_other (h : (serve c (.readFile p) m).1 = .error .other) : c.fails = true ∨ m.disk.isDirAt p = true := by
  rw [readFile_reply] at h
  cases hf : c.fails with
  | true => exact Or.inl rfl
  | false =>
    refine Or.inr ?_
    cases hp : m.disk.fileAt p <;> rw [hf, hp] at h
    · cases hd : m.disk.isDirAt p with
      | true => rfl
      | false =>
        rw [hd] at h
        cases h
    · cases h

theorem readDir_reply : (serve c (.readDir p) m).1 =
    if c.fails = true then .error .other
    else if m.disk.isDirAt p = true then .ok (m.disk.entries p)
    else if (m.disk.fileAt p).isSome = true then .error .other
    else .error .notExist := rfl

theorem readDir_ok {entries : List Entry} (hdir : m.disk.isDirAt p = true) (h : (serve c (.readDir p) m).1 = .ok entries) :
    entries = m.disk.entries p := by
  rw [readDir_reply] at h
  cases hf : c.fails <;> rw [hf, hdir] at h
  · exact (Except.ok.inj h).symm
  · cases h

theorem readDir_error {e : FsError} (hdir : m.disk.isDirAt p = true) (h : (serve c (.readDir p) m).1 = .error e) :
    c.fails = true ∧ e = .other := by
  rw [readDir_reply] at h
  cases hf : c.fails <;> rw [hf, hdir] at h
  · cases h
  · exact ⟨rfl, (Except.error.inj h).symm⟩

theorem info_reply : (serve c (.info p) m).1 = if c.fails = true then .error .other else m.disk.stat p := rfl

theorem lstat_reply : (serve c (.lstat p) m).1 = if c.fails = true then .error .other else m.disk.stat p := rfl

theorem mkdirAll_eq : serve c (.mkdirAll p) m =
    if c.fails = true then (.error .other, m.setDisk (m.disk.makeDirs (p.take c.made)))
    else if p.inits.any (fun q => (m.disk.fileAt q).isSome) = true then (.error .other, m)
    else (.ok (), m.setDisk (m.disk.makeDirs p)) := rfl

theorem createTemp_eq : serve c (.createTemp p) m =
    if c.fails = true then (.error .other, m)
    else if m.disk.isDirAt p = false then (.error .notExist, m)
    else if (m.disk.fileAt (p ++ [c.tempName])).isSome = true then (.error .other, m)
    else (.ok (p ++ [c.tempName]), m.setDisk (m.disk.create (p ++ [c.tempName]) [])) := rfl

theorem write_eq {data : GoString} : serve c (.write p data) m =
    if m.disk.fileAt p = none then (.error .notExist, m)
    else if c.fails = true then (.error .other, m.setDisk (m.disk.create p c.written))
    else (.ok (), m.setDisk (m.disk.create p data)) := rfl

theorem rename_eq {tmp : Path} : serve c (.rename tmp p) m =
    if c.fails = true ∨ m.disk.isDirAt p = true then (.error .other, m)
    else if m.disk.fileAt tmp = none ∨ m.disk.isDirAt p.dropLast = false then (.error .notExist, m)
    else (.ok (), m.setDisk ((m.disk.delete tmp).create p ((m.disk.fileAt tmp).getD []))) := rfl

theorem remove_eq : serve c (.remove p) m =
    if c.fails = true ∨ m.disk.isDirAt p = true then (.error .other, m)
    else if m.disk.fileAt p = none then (.error .notExist, m)
    else (.ok (), m.setDisk (m.disk.delete p)) := rfl

theorem stat_of_file {content : GoString} (h : m.disk.fileAt p = some content) : m.disk.stat p = .ok ⟨false, content.length⟩ := by
  unfold Disk.stat
  rw [h]

theorem stat_of_dir (h : m.disk.fileAt p = none) :
    m.disk.stat p = if m.disk.isDirAt p = true then .ok ⟨true, 0⟩ else .error .notExist := by
  unfold Disk.stat
  rw [h]

/-- What a rename has done, if it has. -/
theorem rename_ok {tmp : Path} (h : (serve c (.rename tmp p) m).1 = .ok ()) :
    ∃ content, m.disk.fileAt tmp = some content ∧ m.disk.isDirAt p.dropLast = true ∧
      (serve c (.rename tmp p) m).2 = m.setDisk ((m.disk.delete tmp).create p content) := by
  rw [rename_eq] at h ⊢
  split_ifs at h with h1 h2
  obtain ⟨hfile, hdir⟩ := not_or.mp h2
  obtain ⟨content, hc⟩ := Option.ne_none_iff_exists'.mp hfile
  refine ⟨content, hc, (Bool.not_eq_false _).mp hdir, ?_⟩
  rw [if_neg h1, if_neg h2, hc]
  rfl

theorem rename_error {tmp : Path} {e : FsError} (h : (serve c (.rename tmp p) m).1 = .error e) :
    (serve c (.rename tmp p) m).2 = m := by
  rw [rename_eq] at h ⊢
  split_ifs at h ⊢ <;> rfl

theorem remove_ok (h : (serve c (.remove p) m).1 = .ok ()) : (serve c (.remove p) m).2 = m.setDisk (m.disk.delete p) := by
  rw [remove_eq] at h ⊢
  split_ifs at h ⊢
  rfl

theorem remove_error {e : FsError} (h : (serve c (.remove p) m).1 = .error e) : (serve c (.remove p) m).2 = m := by
  rw [remove_eq] at h ⊢
  split_ifs at h ⊢ <;> rfl

theorem remove_notExist (h : (serve c (.remove p) m).1 = .error .notExist) : m.disk.fileAt p = none := by
  by_contra hp
  rw [remove_eq] at h
  rw [if_neg hp] at h
  split_ifs at h
  cases h

/-! ### Where nothing is in the way -/

theorem serve_mkdirAll (h : ∀ q, q <+: p → m.disk.fileAt q = none) : serve c (.mkdirAll p) m =
    if c.fails then (.error .other, m.setDisk (m.disk.makeDirs (p.take c.made))) else (.ok (), m.setDisk (m.disk.makeDirs p)) := by
  have hany : ¬ p.inits.any (fun q => (m.disk.fileAt q).isSome) = true := by
    intro hany
    obtain ⟨q, hq, hsome⟩ := List.any_eq_true.mp hany
    rw [h q ((List.mem_inits q p).mp hq)] at hsome
    cases hsome
  rw [mkdirAll_eq]
  rw [if_neg hany]

theorem serve_createTemp (h : m.disk.isDirAt p = true) : serve c (.createTemp p) m =
    if c.strikes (.createTemp p) m then (.error .other, m)
    else (.ok (p ++ [c.tempName]), m.setDisk (m.disk.create (p ++ [c.tempName]) [])) := by
  have hstrikes : c.strikes (.createTemp p) m = (c.fails || (m.disk.fileAt (p ++ [c.tempName])).isSome) := rfl
  rw [createTemp_eq, h, hstrikes]
  cases c.fails <;> cases (m.disk.fileAt (p ++ [c.tempName])).isSome <;> rfl

theorem serve_write {content data : GoString} (h : m.disk.fileAt p = some content) : serve c (.write p data) m =
    if c.fails then (.error .other, m.setDisk (m.disk.create p c.written)) else (.ok (), m.setDisk (m.disk.create p data)) := by
  have hne : ¬ m.disk.fileAt p = none := by
    rw [h]
    exact Option.some_ne_none content
  rw [write_eq]
  rw [if_neg hne]

theorem serve_chmod {content : GoString} (h : m.disk.fileAt p = some content) :
    (serve c (.chmod p) m).1 = if c.fails = true then .error .other else .ok () := by
  show (if c.fails = true then _ else if m.disk.fileAt p = none then _ else _) = _
  rw [h]
  rfl

theorem serve_rename {tmp : Path} {content : GoString} (h : m.disk.fileAt tmp = some content) (hp : m.disk.isDirAt p = false)
    (hd : m.disk.isDirAt p.dropLast = true) : serve c (.rename tmp p) m =
      if c.fails then (.error .other, m) else (.ok (), m.setDisk ((m.disk.delete tmp).create p content)) := by
  rw [rename_eq, h, hp, hd]
  simp

theorem serve_remove (hp : m.disk.isDirAt p = false) : serve c (.remove p) m =
    if c.fails then (.error .other, m)
    else if m.disk.fileAt p = none then (.error .notExist, m)
    else (.ok (), m.setDisk (m.disk.delete p)) := by
  rw [remove_eq, hp]
  simp

end Replies

/-! ## What keeps a disk tidy -/

/-- Requests that the store may make of a tidy disk. -/
def Proper (base : Path) : FsRequest → Prop
  | .mkdirAll p => p.length ≤ base.length + 4
  | .createTemp dir => ∃ account rest, validAccountID account = .ok () ∧ dir = base ++ account :: rest ∧ rest.length = 3
  | .rename _ p => Filed base p
  | _ => True

theorem filed_temp {base dir : Path} {suffix : GoString} {account : GoString} {rest : List GoString}
    (ha : validAccountID account = .ok ()) (hdir : dir = base ++ account :: rest) (hlen : rest.length = 3) :
    Filed base (dir ++ [tempMark ++ suffix]) := by
  refine ⟨account, rest ++ [tempMark ++ suffix], ha, ?_, ?_, Or.inr ?_⟩
  · rw [hdir, List.append_assoc, List.cons_append]
  · rw [List.length_append, hlen]
    rfl
  · rw [List.getLastD_concat]
    exact List.prefix_append _ _

/-- The step lemma of `Tidy`. -/
theorem tidy_serve {base : Path} {c : Choice} {q : FsRequest} {m : Machine} (h : Tidy base m.disk) (hq : Proper base q) :
    Tidy base (serve c q m).2.disk := by
  cases q with
  | mkdirAll p =>
    rw [mkdirAll_eq]
    split_ifs
    · exact h.makeDirs (le_trans (List.length_take_le' _ _) hq)
    · exact h
    · exact h.makeDirs hq
  | createTemp dir =>
    obtain ⟨account, rest, ha, hdir, hlen⟩ := hq
    rw [createTemp_eq]
    split_ifs with h1 h2 h3
    · exact h
    · exact h
    · exact h
    · refine h.create (filed_temp ha hdir hlen) ?_ []
      rw [List.dropLast_concat]
      exact (Bool.not_eq_false _).mp h2
  | write tmp data =>
    rw [write_eq]
    split_ifs with h1 h2
    · exact h
    · have hs := Option.isSome_iff_ne_none.mpr h1
      exact h.create (h.file tmp hs) (h.above_file tmp hs) _
    · have hs := Option.isSome_iff_ne_none.mpr h1
      exact h.create (h.file tmp hs) (h.above_file tmp hs) _
  | rename tmp p =>
    rw [rename_eq]
    split_ifs with h1 h2
    · exact h
    · exact h
    · exact (h.delete tmp).create hq ((Bool.not_eq_false _).mp (fun hd => h2 (Or.inr hd))) _
  | remove p =>
    rw [remove_eq]
    split_ifs
    · exact h
    · exact h
    · exact h.delete p
  | _ => exact h

end Server

end EasyDocket
