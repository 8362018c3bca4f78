import Mathlib.Order.Lattice
import Mathlib.Data.List.Sort
import Mathlib.Tactic.Common

/-!
# Keyed tables

A table holds rows in strictly increasing order of a key that is part of the row, the way an indexed object store
with an inbound primary key holds them.  A row is replaced by a later row with the same key, and listing a table
gives its rows in key order.  Two tables with the same rows are equal (`Table.ext_mem`).
-/

namespace EasyDocket

/-- Rows in strictly increasing key order. -/
structure Table {κ ν : Type} [LinearOrder κ] (key : ν → κ) where
  rows : List ν
  sorted : rows.Pairwise (fun a b => key a < key b)

namespace Table

variable {κ ν : Type} [LinearOrder κ] {key : ν → κ}

instance : Membership ν (Table key) := ⟨fun t v => v ∈ t.rows⟩

theorem mem_def {t : Table key} {v : ν} : v ∈ t ↔ v ∈ t.rows := Iff.rfl

/-! ## Operations -/

/-- The table without rows. -/
def empty : Table key := ⟨[], List.Pairwise.nil⟩

/-- `v` put into its place in a key-ordered list, over a row with the same key. -/
def insertRow (key : ν → κ) (v : ν) : List ν → List ν
  | [] => [v]
  | r :: rs =>
    if key v < key r then v :: r :: rs
    else if key v = key r then v :: rs
    else r :: insertRow key v rs

theorem mem_insertRow {v x : ν} : ∀ {l : List ν}, l.Pairwise (fun a b => key a < key b) →
    (x ∈ insertRow key v l ↔ x = v ∨ (x ∈ l ∧ key x ≠ key v))
  | [], _ => by simp [insertRow]
  | r :: rs, h => by
    obtain ⟨hr, hrs⟩ := List.pairwise_cons.mp h
    unfold insertRow
    split_ifs with hlt heq
    · have hne : ∀ y ∈ r :: rs, key y ≠ key v := by
        intro y hy
        rcases List.mem_cons.mp hy with rfl | hy
        · exact hlt.ne'
        · exact (hlt.trans (hr y hy)).ne'
      constructor
      · intro hx
        rcases List.mem_cons.mp hx with rfl | hx
        · exact Or.inl rfl
        · exact Or.inr ⟨hx, hne x hx⟩
      · rintro (rfl | ⟨hx, -⟩)
        · exact List.mem_cons_self
        · exact List.mem_cons_of_mem _ hx
    · have hne : ∀ y ∈ rs, key y ≠ key v := fun y hy => (heq ▸ hr y hy).ne'
      constructor
      · intro hx
        rcases List.mem_cons.mp hx with rfl | hx
        · exact Or.inl rfl
        · exact Or.inr ⟨List.mem_cons_of_mem _ hx, hne x hx⟩
      · rintro (rfl | ⟨hx, hk⟩)
        · exact List.mem_cons_self
        · rcases List.mem_cons.mp hx with rfl | hx
          · exact absurd heq.symm hk
          · exact List.mem_cons_of_mem _ hx
    · rw [List.mem_cons, mem_insertRow hrs, List.mem_cons]
      constructor
      · rintro (rfl | rfl | ⟨hx, hk⟩)
        · exact Or.inr ⟨Or.inl rfl, fun h => heq h.symm⟩
        · exact Or.inl rfl
        · exact Or.inr ⟨Or.inr hx, hk⟩
      · rintro (rfl | ⟨rfl | hx, hk⟩)
        · exact Or.inr (Or.inl rfl)
        · exact Or.inl rfl
        · exact Or.inr (Or.inr ⟨hx, hk⟩)

/-- A row with a key of its own is added to the others. -/
theorem insertRow_perm {v : ν} : ∀ {l : List ν}, (∀ r ∈ l, key r ≠ key v) → (insertRow key v l).Perm (v :: l)
  | [], _ => List.Perm.refl _
  | r :: rs, h => by
    unfold insertRow
    rw [if_neg (h r List.mem_cons_self).symm]
    split_ifs with hlt
    · exact List.Perm.refl _
    · exact ((insertRow_perm (fun x hx => h x (List.mem_cons_of_mem r hx))).cons r).trans (List.Perm.swap v r rs)

theorem insertRow_sorted {v : ν} : ∀ {l : List ν}, l.Pairwise (fun a b => key a < key b) →
    (insertRow key v l).Pairwise (fun a b => key a < key b)
  | [], _ => by simp [insertRow]
  | r :: rs, h => by
    obtain ⟨hr, hrs⟩ := List.pairwise_cons.mp h
    unfold insertRow
    split_ifs with hlt heq
    · refine List.pairwise_cons.mpr ⟨fun y hy => ?_, h⟩
      rcases List.mem_cons.mp hy with rfl | hy
      · exact hlt
      · exact hlt.trans (hr y hy)
    · exact List.pairwise_cons.mpr ⟨fun y hy => heq ▸ hr y hy, hrs⟩
    · refine List.pairwise_cons.mpr ⟨fun y hy => ?_, insertRow_sorted hrs⟩
      rcases (mem_insertRow hrs).mp hy with rfl | ⟨hy, -⟩
      · exact lt_of_le_of_ne (not_lt.mp hlt) (fun h => heq h.symm)
      · exact hr y hy

/-- Write a row, replacing the row with the same key. -/
def put (t : Table key) (v : ν) : Table key := ⟨insertRow key v t.rows, insertRow_sorted t.sorted⟩

/-- Write several rows, in order. -/
def bulkPut (t : Table key) (vs : List ν) : Table key := vs.foldl put t

/-- Remove the row with the given key, if there is one. -/
def delete (t : Table key) (k : κ) : Table key :=
  ⟨t.rows.filter (fun r => key r ≠ k), t.sorted.filter _⟩

/-- The row with the given key. -/
def get? (t : Table key) (k : κ) : Option ν := t.rows.find? (fun r => key r = k)

/-- Change rows in place; the change must keep every key. -/
def update (t : Table key) (f : ν → ν) (hf : ∀ r, key (f r) = key r) : Table key :=
  ⟨t.rows.map f, by
    rw [List.pairwise_map]
    exact t.sorted.imp (fun h => by rw [hf, hf]; exact h)⟩

/-! ## Rows of a table -/

theorem eq_of_key_eq {t : Table key} {a b : ν} (ha : a ∈ t) (hb : b ∈ t) (h : key a = key b) : a = b := by
  have key_inj : ∀ {l : List ν}, l.Pairwise (fun a b => key a < key b) → a ∈ l → b ∈ l → a = b := by
    intro l
    induction l with
    | nil => exact fun _ ha => absurd ha List.not_mem_nil
    | cons r rs ih =>
      intro hp ha hb
      obtain ⟨hr, hrs⟩ := List.pairwise_cons.mp hp
      rcases List.mem_cons.mp ha with ha | ha <;> rcases List.mem_cons.mp hb with hb | hb
      · rw [ha, hb]
      · exact absurd (ha ▸ h) (hr b hb).ne
      · exact absurd (hb ▸ h) (hr a ha).ne'
      · exact ih hrs ha hb
  exact key_inj t.sorted ha hb

/-- Two key-ordered lists with the same rows are equal. -/
theorem eq_of_mem_iff {l l' : List ν} (hl : l.Pairwise (fun a b => key a < key b))
    (hl' : l'.Pairwise (fun a b => key a < key b)) (h : ∀ v, v ∈ l ↔ v ∈ l') : l = l' := by
  have hnd : ∀ {m : List ν}, m.Pairwise (fun a b => key a < key b) → m.Nodup :=
    fun hm => hm.imp (fun h => ne_of_apply_ne key h.ne)
  refine List.Perm.eq_of_pairwise' (r := fun a b => key a < key b) hl hl' ?_
  exact (List.perm_ext_iff_of_nodup (hnd hl) (hnd hl')).mpr h

/-- Tables with the same rows are equal. -/
theorem ext_mem {t u : Table key} (h : ∀ v, v ∈ t ↔ v ∈ u) : t = u := by
  have hrows : t.rows = u.rows := eq_of_mem_iff t.sorted u.sorted h
  cases t; cases u
  simp only at hrows
  subst hrows
  rfl

@[simp] theorem not_mem_empty (v : ν) : ¬ v ∈ (empty : Table key) := List.not_mem_nil

@[simp] theorem mem_put {t : Table key} {v x : ν} : x ∈ t.put v ↔ x = v ∨ (x ∈ t ∧ key x ≠ key v) :=
  mem_insertRow t.sorted

theorem mem_put_self (t : Table key) (v : ν) : v ∈ t.put v := mem_put.mpr (Or.inl rfl)

@[simp] theorem mem_delete {t : Table key} {k : κ} {x : ν} : x ∈ t.delete k ↔ x ∈ t ∧ key x ≠ k := by
  simp [delete, mem_def]

theorem mem_update {t : Table key} {f : ν → ν} {hf : ∀ r, key (f r) = key r} {x : ν} :
    x ∈ t.update f hf ↔ ∃ r ∈ t, f r = x := by
  simp [update, mem_def]

theorem get?_eq_some {t : Table key} {k : κ} {v : ν} : t.get? k = some v ↔ v ∈ t ∧ key v = k := by
  constructor
  · intro h
    exact ⟨List.mem_of_find?_eq_some h, by simpa using List.find?_some h⟩
  · rintro ⟨hv, rfl⟩
    cases hg : t.get? (key v) with
    | none => exact absurd (List.find?_eq_none.mp hg v hv) (by simp)
    | some w =>
      have hw := List.mem_of_find?_eq_some hg
      have hk : key w = key v := by simpa using List.find?_some hg
      rw [eq_of_key_eq hw hv hk]

theorem get?_eq_none {t : Table key} {k : κ} : t.get? k = none ↔ ∀ v ∈ t, key v ≠ k := by
  simp [get?, mem_def, List.find?_eq_none]

theorem get?_put {t : Table key} {v : ν} {k : κ} :
    (t.put v).get? k = if k = key v then some v else t.get? k := by
  split_ifs with h
  · exact get?_eq_some.mpr ⟨mem_put_self t v, h.symm⟩
  · cases hg : t.get? k with
    | none =>
      refine get?_eq_none.mpr (fun x hx => ?_)
      rcases mem_put.mp hx with rfl | ⟨hx, -⟩
      · exact fun hk => h hk.symm
      · exact get?_eq_none.mp hg x hx
    | some w =>
      obtain ⟨hw, rfl⟩ := get?_eq_some.mp hg
      exact get?_eq_some.mpr ⟨mem_put.mpr (Or.inr ⟨hw, h⟩), rfl⟩

theorem get?_delete {t : Table key} {k l : κ} :
    (t.delete k).get? l = if l = k then none else t.get? l := by
  split_ifs with h
  · exact get?_eq_none.mpr (fun x hx => h ▸ (mem_delete.mp hx).2)
  · cases hg : t.get? l with
    | none => exact get?_eq_none.mpr (fun x hx => get?_eq_none.mp hg x (mem_delete.mp hx).1)
    | some w =>
      obtain ⟨hw, rfl⟩ := get?_eq_some.mp hg
      exact get?_eq_some.mpr ⟨mem_delete.mpr ⟨hw, h⟩, rfl⟩

/-- Rows with different keys, written over the rows that were there. -/
theorem mem_bulkPut {x : ν} : ∀ {l : List ν} {t : Table key}, l.Pairwise (fun a b => key a ≠ key b) →
    (x ∈ t.bulkPut l ↔ x ∈ l ∨ (x ∈ t ∧ ∀ y ∈ l, key x ≠ key y))
  | [], t, _ => by simp [bulkPut]
  | v :: l, t, h => by
    obtain ⟨hv, hl⟩ := List.pairwise_cons.mp h
    show x ∈ (t.put v).bulkPut l ↔ _
    rw [mem_bulkPut hl, mem_put, List.mem_cons]
    constructor
    · rintro (hx | ⟨rfl | ⟨hx, hk⟩, hne⟩)
      · exact Or.inl (Or.inr hx)
      · exact Or.inl (Or.inl rfl)
      · refine Or.inr ⟨hx, fun y hy => ?_⟩
        rcases List.mem_cons.mp hy with rfl | hy
        · exact hk
        · exact hne y hy
    · rintro ((rfl | hx) | ⟨hx, hne⟩)
      · exact Or.inr ⟨Or.inl rfl, hv⟩
      · exact Or.inl hx
      · exact Or.inr ⟨Or.inr ⟨hx, hne v List.mem_cons_self⟩, fun y hy => hne y (List.mem_cons_of_mem _ hy)⟩

/-- Tables that answer every key alike are equal. -/
theorem ext_get? {t u : Table key} (h : ∀ k, t.get? k = u.get? k) : t = u := by
  refine ext_mem (fun v => ?_)
  constructor
  · intro hv
    exact (get?_eq_some.mp ((h (key v)) ▸ get?_eq_some.mpr ⟨hv, rfl⟩)).1
  · intro hv
    exact (get?_eq_some.mp ((h (key v)).symm ▸ get?_eq_some.mpr ⟨hv, rfl⟩)).1

/-- A row greater than all others goes to the end. -/
theorem put_last {t u : Table key} {v : ν} (h : ∀ r ∈ t.rows, key r < key v) (hu : u.rows = t.rows ++ [v]) :
    t.put v = u := by
  refine ext_mem (fun x => ?_)
  rw [mem_put, mem_def, mem_def, hu, List.mem_append, List.mem_singleton]
  exact ⟨fun hx => hx.symm.imp_left And.left, fun hx => hx.symm.imp_right (fun hx => ⟨hx, (h x hx).ne⟩)⟩

/-- The last row put under a key is the one that stays. -/
theorem put_put {t : Table key} {v w : ν} (h : key v = key w) : (t.put v).put w = t.put w := by
  refine ext_get? (fun k => ?_)
  rw [get?_put, get?_put, get?_put, h]
  split_ifs <;> rfl

end Table

end EasyDocket
