import EasyDocket.Server.Serving
import Mathlib.Data.Prod.Lex
import Mathlib.Data.List.Perm.Subperm

/-!
# The objects of the accounts

What the store is for: a map from the names of an account to bytes.  A disk stands for such a map, with its temporary
files left out.
-/

namespace EasyDocket

namespace Server

/-- One object of an account. -/
structure Stored where
  account : GoString
  name : GoString
  data : GoString
  deriving DecidableEq

def Stored.key (o : Stored) : Lex (GoString × GoString) := toLex (o.account, o.name)

/-- Names to bytes, for every account. -/
abbrev Held := Table Stored.key

namespace Held

def content (held : Held) (account name : GoString) : Option GoString :=
  (held.get? (toLex (account, name))).map Stored.data

def put (held : Held) (o : Stored) : Held := Table.put held o

def delete (held : Held) (account name : GoString) : Held := Table.delete held (toLex (account, name))

/-- The bytes of an account. -/
def total (held : Held) (account : GoString) : ℕ :=
  ((held.rows.filter (fun o => o.account = account)).map (fun o => o.data.length)).sum

variable {held held' : Held} {account name : GoString} {o : Stored}

theorem content_eq_some {data : GoString} : held.content account name = some data ↔ (⟨account, name, data⟩ : Stored) ∈ held := by
  unfold content
  rw [Option.map_eq_some_iff]
  constructor
  · rintro ⟨o, ho, rfl⟩
    obtain ⟨hm, hk⟩ := Table.get?_eq_some.mp ho
    obtain ⟨ha, hn⟩ := Prod.mk.inj (toLex.injective hk)
    rw [← ha, ← hn]
    exact hm
  · exact fun h => ⟨⟨account, name, data⟩, Table.get?_eq_some.mpr ⟨h, rfl⟩, rfl⟩

theorem content_put (o : Stored) : (held.put o).content account name =
    if account = o.account ∧ name = o.name then some o.data else held.content account name := by
  unfold content put
  rw [Table.get?_put]
  have hk : toLex (account, name) = o.key ↔ account = o.account ∧ name = o.name := by
    unfold Stored.key
    rw [toLex.injective.eq_iff, Prod.mk.injEq]
  by_cases h : account = o.account ∧ name = o.name
  · rw [if_pos (hk.mpr h), if_pos h]
    rfl
  · rw [if_neg (fun hh => h (hk.mp hh)), if_neg h]

theorem content_delete (a n : GoString) : (held.delete a n).content account name =
    if account = a ∧ name = n then none else held.content account name := by
  unfold content delete
  rw [Table.get?_delete]
  have hk : toLex (account, name) = toLex (a, n) ↔ account = a ∧ name = n := by
    rw [toLex.injective.eq_iff, Prod.mk.injEq]
  by_cases h : account = a ∧ name = n
  · rw [if_pos (hk.mpr h), if_pos h]
    rfl
  · rw [if_neg (fun hh => h (hk.mp hh)), if_neg h]

/-- A total only looks at the objects of its account. -/
theorem total_congr (h : ∀ name, held.content account name = held'.content account name) :
    held.total account = held'.total account := by
  have hrows : held.rows.filter (fun o => o.account = account) = held'.rows.filter (fun o => o.account = account) := by
    refine Table.eq_of_mem_iff (held.sorted.filter _) (held'.sorted.filter _) (fun o => ?_)
    rw [List.mem_filter, List.mem_filter, decide_eq_true_iff]
    refine and_congr_left (fun ho => ?_)
    have hc := h o.name
    rw [← ho] at hc
    show o ∈ held ↔ o ∈ held'
    rw [show o = ⟨o.account, o.name, o.data⟩ from rfl, ← content_eq_some, ← content_eq_some, hc]
  unfold total
  rw [hrows]

/-- Deleting what is not there. -/
theorem delete_absent (h : held.content account name = none) : held.delete account name = held := by
  refine Table.ext_get? (fun k => ?_)
  unfold delete
  rw [Table.get?_delete]
  split_ifs with hk
  · rw [hk]
    exact (Option.map_eq_none_iff.mp h).symm
  · rfl

theorem total_delete_le (a n : GoString) : (held.delete a n).total account ≤ held.total account := by
  unfold total delete Table.delete
  refine List.Sublist.sum_le_sum (List.Sublist.map _ (List.Sublist.filter _ List.filter_sublist)) (fun _ _ => Nat.zero_le _)

theorem total_put (h : held.content o.account o.name = none) :
    (held.put o).total account = held.total account + if o.account = account then o.data.length else 0 := by
  have hnew : ∀ x ∈ held, x.key ≠ o.key := by
    intro x hx hk
    obtain ⟨ha, hn⟩ := Prod.mk.inj (toLex.injective hk)
    rw [← ha, ← hn, content_eq_some.mpr (show (⟨x.account, x.name, x.data⟩ : Stored) ∈ held from hx)] at h
    cases h
  have hnodup : ∀ {t : Held}, t.rows.Nodup := fun {t} => t.sorted.imp (fun h => ne_of_apply_ne Stored.key h.ne)
  have hperm : (held.put o).rows.Perm (o :: held.rows) := by
    refine (List.perm_ext_iff_of_nodup hnodup (List.nodup_cons.mpr ⟨fun hm => hnew o hm rfl, hnodup⟩)).mpr (fun x => ?_)
    rw [List.mem_cons]
    show x ∈ Table.put held o ↔ _
    rw [Table.mem_put]
    exact or_congr_right ⟨And.left, fun hx => ⟨hx, hnew x hx⟩⟩
  unfold total
  rw [((hperm.filter _).map _).sum_eq]
  by_cases ha : o.account = account
  · rw [List.filter_cons_of_pos (by simpa using ha), List.map_cons, List.sum_cons, if_pos ha, Nat.add_comm]
  · rw [List.filter_cons_of_neg (by simpa using ha), if_neg ha, Nat.add_zero]

section Places

variable {place : GoString → Path} {size : Path → ℕ} {paths : List Path}

/-- Where the objects of an account are. -/
def places (held : Held) (account : GoString) (place : GoString → Path) : List Path :=
  (held.rows.filter (fun o => o.account = account)).map (fun o => place o.name)

theorem mem_places {p : Path} : p ∈ held.places account place ↔ ∃ name data, held.content account name = some data ∧
    place name = p := by
  unfold places
  rw [List.mem_map]
  constructor
  · rintro ⟨o, ho, rfl⟩
    obtain ⟨hm, ha⟩ := List.mem_filter.mp ho
    refine ⟨o.name, o.data, ?_, rfl⟩
    rw [← of_decide_eq_true ha]
    exact content_eq_some.mpr hm
  · rintro ⟨name, data, hc, rfl⟩
    exact ⟨⟨account, name, data⟩, List.mem_filter.mpr ⟨content_eq_some.mp hc, decide_eq_true rfl⟩, rfl⟩

theorem nodup_places (hplace : Function.Injective place) : (held.places account place).Nodup := by
  unfold places
  rw [List.nodup_map_iff_inj_on (((held.sorted.imp (fun h => ne_of_apply_ne Stored.key h.ne) : held.rows.Nodup)).filter _)]
  intro x hx y hy hxy
  obtain ⟨hxm, hxa⟩ := List.mem_filter.mp hx
  obtain ⟨hym, hya⟩ := List.mem_filter.mp hy
  refine Table.eq_of_key_eq hxm hym ?_
  unfold Stored.key
  rw [of_decide_eq_true hxa, of_decide_eq_true hya, hplace hxy]

theorem total_eq_places (h : ∀ name data, held.content account name = some data → size (place name) = data.length) :
    held.total account = ((held.places account place).map size).sum := by
  unfold total places
  rw [List.map_map]
  congr 1
  refine List.map_congr_left (fun o ho => ?_)
  obtain ⟨hm, ha⟩ := List.mem_filter.mp ho
  have hc := content_eq_some.mpr (show (⟨o.account, o.name, o.data⟩ : Stored) ∈ held from hm)
  rw [of_decide_eq_true ha] at hc
  exact (h o.name o.data hc).symm

/-- Files that hold all objects of an account hold all its bytes. -/
theorem total_le_sum (hplace : Function.Injective place)
    (h : ∀ name data, held.content account name = some data → place name ∈ paths ∧ size (place name) = data.length) :
    held.total account ≤ (paths.map size).sum := by
  rw [total_eq_places (fun name data hc => (h name data hc).2)]
  have hsub : held.places account place ⊆ paths := by
    intro p hp
    obtain ⟨name, data, hc, rfl⟩ := mem_places.mp hp
    exact (h name data hc).1
  obtain ⟨l, hperm, hl⟩ := (nodup_places hplace).subperm hsub
  rw [← (hperm.map size).sum_eq]
  exact (hl.map size).sum_le_sum (fun _ _ => Nat.zero_le _)

/-- Files that are the objects of an account hold its bytes. -/
theorem total_eq_sum (hplace : Function.Injective place) (hpaths : paths.Nodup)
    (h : ∀ name data, held.content account name = some data → place name ∈ paths ∧ size (place name) = data.length)
    (hback : ∀ p ∈ paths, ∃ name data, held.content account name = some data ∧ place name = p) :
    held.total account = (paths.map size).sum := by
  rw [total_eq_places (fun name data hc => (h name data hc).2)]
  have hperm : (held.places account place).Perm paths := by
    refine (List.perm_ext_iff_of_nodup (nodup_places hplace) hpaths).mpr (fun p => ⟨fun hp => ?_, fun hp => ?_⟩)
    · obtain ⟨name, data, hc, rfl⟩ := mem_places.mp hp
      exact (h name data hc).1
    · exact mem_places.mpr (hback p hp)
  exact (hperm.map size).sum_eq

end Places

end Held

/-! ## The objects on a disk -/

/-- The object that a file is. -/
def objectOf (base : Path) (f : File) : Option Stored :=
  match f.path.drop base.length with
  | account :: rest => if IsTemp (rest.getLastD []) then none else some ⟨account, joinSlash rest, f.content⟩
  | [] => none

/-- The objects on a disk. -/
def heldOn (base : Path) (disk : Disk) : Held := Table.empty.bulkPut (disk.files.rows.filterMap (objectOf base))

theorem NameParts.not_temp {name vault file : GoString} (h : NameParts name vault file) : ¬ IsTemp file := by
  obtain ⟨stem, rfl, hne, hbytes⟩ := file_parts h.file_match
  obtain ⟨c, stem, rfl⟩ := List.exists_cons_of_ne_nil hne
  rintro ⟨rest, hrest⟩
  have hc : c = octet '.' := (List.cons.inj hrest).1.symm
  have := hbytes c List.mem_cons_self
  rw [hc, isIdByte_dot] at this
  cases this

theorem joinSlash_splitSlash (s : GoString) : joinSlash (splitSlash s) = s := List.intercalate_splitOn slash

theorem splitSlash_injective : Function.Injective splitSlash := Function.LeftInverse.injective joinSlash_splitSlash

theorem objectPath_injective (base : Path) {a b n k : GoString} (h : objectPath base a n = objectPath base b k) :
    a = b ∧ n = k := by
  obtain ⟨ha, hn⟩ := List.cons.inj (List.append_cancel_left h)
  exact ⟨ha, splitSlash_injective hn⟩

variable {base : Path} {disk : Disk}

/-- A file that an object is read from has the object's path. -/
theorem objectOf_eq_some {f : File} {o : Stored} (hf : Filed base f.path) : objectOf base f = some o ↔
    validAccountID o.account = .ok () ∧ validateName o.name = .ok () ∧ f.path = objectPath base o.account o.name ∧
      f.content = o.data := by
  obtain ⟨account, rest, ha, hpath, hlen, hrest⟩ := hf
  have hdrop : f.path.drop base.length = account :: rest := by rw [hpath, List.drop_left]
  unfold objectOf
  rw [hdrop]
  simp only
  constructor
  · intro h
    split_ifs at h with ht
    cases h
    obtain ⟨name, hn, rfl⟩ := hrest.resolve_right ht
    rw [joinSlash_splitSlash]
    exact ⟨ha, hn, hpath, rfl⟩
  · rintro ⟨-, hn, hp, hc⟩
    obtain ⟨hacc, hsegs⟩ := List.cons.inj (List.append_cancel_left (hpath.symm.trans hp))
    obtain ⟨vault, file, hparts⟩ := validateName_ok hn
    have hlast : rest.getLastD [] = file := by
      rw [hsegs, hparts.split]
      rfl
    rw [hlast, if_neg hparts.not_temp, hacc, hsegs, joinSlash_splitSlash, hc]

theorem mem_heldOn (h : Tidy base disk) {o : Stored} : o ∈ heldOn base disk ↔
    validAccountID o.account = .ok () ∧ validateName o.name = .ok () ∧
      disk.fileAt (objectPath base o.account o.name) = some o.data := by
  have hfiled : ∀ f ∈ disk.files.rows, Filed base f.path := fun f hf =>
    h.file f.path (Option.isSome_iff_exists.mpr ⟨f.content, Disk.fileAt_eq_some.mpr hf⟩)
  have hkeys : (disk.files.rows.filterMap (objectOf base)).Pairwise (fun a b => a.key ≠ b.key) := by
    rw [List.pairwise_filterMap]
    refine disk.files.sorted.imp_of_mem (fun hf hg hlt a ha b hb hk => ?_)
    obtain ⟨-, -, hpa, -⟩ := (objectOf_eq_some (hfiled _ hf)).mp ha
    obtain ⟨-, -, hpb, -⟩ := (objectOf_eq_some (hfiled _ hg)).mp hb
    obtain ⟨hacc, hname⟩ := Prod.mk.inj (toLex.injective hk)
    exact hlt.ne (by rw [hpa, hpb, hacc, hname])
  unfold heldOn
  rw [Table.mem_bulkPut hkeys, List.mem_filterMap]
  constructor
  · rintro (⟨f, hf, ho⟩ | ⟨ho, -⟩)
    · obtain ⟨ha, hn, hp, hc⟩ := (objectOf_eq_some (hfiled f hf)).mp ho
      refine ⟨ha, hn, ?_⟩
      rw [← hp, ← hc]
      exact Disk.fileAt_eq_some.mpr hf
    · exact absurd ho (Table.not_mem_empty o)
  · rintro ⟨ha, hn, hf⟩
    have hm := Disk.fileAt_eq_some.mp hf
    exact Or.inl ⟨_, hm, (objectOf_eq_some (hfiled _ hm)).mpr ⟨ha, hn, rfl, rfl⟩⟩

theorem content_heldOn (h : Tidy base disk) {account name : GoString} (ha : validAccountID account = .ok ())
    (hn : validateName name = .ok ()) : (heldOn base disk).content account name = disk.fileAt (objectPath base account name) := by
  refine Option.ext (fun data => ?_)
  rw [Held.content_eq_some, mem_heldOn h]
  exact ⟨fun hm => hm.2.2, fun hf => ⟨ha, hn, hf⟩⟩

/-- The objects only depend on the files of objects. -/
theorem heldOn_congr {disk' : Disk} (h : Tidy base disk) (h' : Tidy base disk')
    (hf : ∀ account name, validAccountID account = .ok () → validateName name = .ok () →
      disk'.fileAt (objectPath base account name) = disk.fileAt (objectPath base account name)) :
    heldOn base disk' = heldOn base disk := by
  refine Table.ext_mem (fun o => ?_)
  rw [mem_heldOn h, mem_heldOn h']
  refine and_congr_right (fun ha => and_congr_right (fun hn => ?_))
  rw [hf o.account o.name ha hn]

/-- A name of `CreateTemp` is not the path of an object. -/
theorem objectPath_ne_temp {account name : GoString} (hn : validateName name = .ok ()) {p : Path}
    (ht : IsTemp (p.getLastD [])) : objectPath base account name ≠ p := by
  rintro rfl
  obtain ⟨vault, file, hparts⟩ := validateName_ok hn
  refine hparts.not_temp ?_
  unfold objectPath at ht
  rw [hparts.split, show base ++ account :: [go "vaults", vault, go "ops", file] =
    (base ++ [account, go "vaults", vault, go "ops"]) ++ [file] by simp, List.getLastD_concat] at ht
  exact ht

/-- The objects of an account only depend on the files in its directory. -/
theorem content_congr {disk' : Disk} (h : Tidy base disk) (h' : Tidy base disk') {account : GoString}
    (hf : ∀ p, base ++ [account] <+: p → disk'.fileAt p = disk.fileAt p) (name : GoString) :
    (heldOn base disk').content account name = (heldOn base disk).content account name := by
  refine Option.ext (fun data => ?_)
  rw [Held.content_eq_some, Held.content_eq_some, mem_heldOn h, mem_heldOn h']
  have hp : base ++ [account] <+: objectPath base account name :=
    ⟨splitSlash name, by unfold objectPath; rw [List.append_assoc]; rfl⟩
  rw [hf _ hp]

section Changes

variable {account name : GoString} {p : Path} {data : GoString}

theorem heldOn_delete_temp (h : Tidy base disk) (ht : IsTemp (p.getLastD [])) :
    heldOn base (disk.delete p) = heldOn base disk := by
  refine heldOn_congr h (h.delete p) (fun a n _ hn => ?_)
  rw [Disk.fileAt_delete, if_neg (objectPath_ne_temp hn ht)]

theorem heldOn_create (h : Tidy base disk) (ha : validAccountID account = .ok ()) (hn : validateName name = .ok ())
    (hd : disk.isDirAt (objectPath base account name).dropLast = true) :
    heldOn base (disk.create (objectPath base account name) data) = (heldOn base disk).put ⟨account, name, data⟩ := by
  refine Table.ext_mem (fun o => ?_)
  show _ ↔ o ∈ Table.put (heldOn base disk) ⟨account, name, data⟩
  rw [mem_heldOn (h.create (filed_objectPath ha hn) hd data), Table.mem_put, mem_heldOn h, Disk.fileAt_create]
  by_cases hp : objectPath base o.account o.name = objectPath base account name
  · obtain ⟨hacc, hname⟩ := objectPath_injective base hp
    rw [if_pos hp]
    constructor
    · rintro ⟨-, -, hdata⟩
      refine Or.inl ?_
      cases o
      simp only [Option.some.injEq] at hacc hname hdata
      rw [hacc, hname, hdata]
    · rintro (rfl | ⟨-, hk⟩)
      · exact ⟨ha, hn, rfl⟩
      · exact absurd (by unfold Stored.key; rw [hacc, hname]) hk
  · rw [if_neg hp]
    constructor
    · intro ho
      refine Or.inr ⟨ho, fun hk => hp ?_⟩
      obtain ⟨hacc, hname⟩ := Prod.mk.inj (toLex.injective hk)
      rw [hacc, hname]
    · rintro (rfl | ⟨ho, -⟩)
      · exact absurd rfl hp
      · exact ho

theorem heldOn_delete (h : Tidy base disk) :
    heldOn base (disk.delete (objectPath base account name)) = (heldOn base disk).delete account name := by
  refine Table.ext_mem (fun o => ?_)
  show _ ↔ o ∈ Table.delete (heldOn base disk) (toLex (account, name))
  rw [mem_heldOn (h.delete _), Table.mem_delete, mem_heldOn h, Disk.fileAt_delete]
  by_cases hp : objectPath base o.account o.name = objectPath base account name
  · obtain ⟨hacc, hname⟩ := objectPath_injective base hp
    rw [if_pos hp]
    constructor
    · rintro ⟨-, -, hdata⟩
      cases hdata
    · rintro ⟨-, hk⟩
      exact absurd (by unfold Stored.key; rw [hacc, hname]) hk
  · rw [if_neg hp]
    refine ⟨fun ho => ⟨ho, fun hk => hp ?_⟩, And.left⟩
    obtain ⟨hacc, hname⟩ := Prod.mk.inj (toLex.injective hk)
    rw [hacc, hname]

end Changes

end Server

end EasyDocket
