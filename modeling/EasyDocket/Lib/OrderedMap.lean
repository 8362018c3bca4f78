import Mathlib.Algebra.BigOperators.Group.List.Basic
import Mathlib.Data.List.Nodup
import Mathlib.Tactic.Common

/-!
# Maps that remember an order

A map that lists its keys in the order in which they were first set.  Setting a key again keeps its place.
-/

namespace EasyDocket

/-- A map with its entries in the order in which their keys were first set. -/
structure OrderedMap (κ ν : Type) where
  entries : List (κ × ν)
  nodup : (entries.map Prod.fst).Nodup

namespace OrderedMap

variable {κ ν M : Type} [DecidableEq κ]

def empty : OrderedMap κ ν := ⟨[], List.nodup_nil⟩

def setEntry (k : κ) (v : ν) : List (κ × ν) → List (κ × ν)
  | [] => [(k, v)]
  | e :: es => if e.1 = k then (k, v) :: es else e :: setEntry k v es

theorem keys_setEntry (k : κ) (v : ν) : ∀ es : List (κ × ν),
    (setEntry k v es).map Prod.fst = if k ∈ es.map Prod.fst then es.map Prod.fst else es.map Prod.fst ++ [k]
  | [] => rfl
  | e :: es => by
    unfold setEntry
    by_cases h : e.1 = k
    · subst h
      simp
    · have hne : ¬ k = e.1 := fun h' => h h'.symm
      rw [if_neg h, List.map_cons, keys_setEntry k v es]
      by_cases hk : k ∈ es.map Prod.fst <;> simp [hk, hne]

/-- Set a key. -/
def set (m : OrderedMap κ ν) (k : κ) (v : ν) : OrderedMap κ ν where
  entries := setEntry k v m.entries
  nodup := by
    rw [keys_setEntry]
    split_ifs with h
    · exact m.nodup
    · refine List.nodup_append.mpr ⟨m.nodup, List.nodup_singleton _, fun a ha b hb => ?_⟩
      rw [List.mem_singleton.mp hb]
      exact fun hab => h (hab ▸ ha)

def get? (m : OrderedMap κ ν) (k : κ) : Option ν := (m.entries.find? (fun e => e.1 = k)).map Prod.snd

def keys (m : OrderedMap κ ν) : List κ := m.entries.map Prod.fst

def values (m : OrderedMap κ ν) : List ν := m.entries.map Prod.snd

/-- The map of a list of entries, set one after the other. -/
def ofList (es : List (κ × ν)) : OrderedMap κ ν := es.foldl (fun m e => m.set e.1 e.2) empty

variable {m : OrderedMap κ ν} {k l : κ} {v w : ν}

@[simp] theorem get?_empty : (empty : OrderedMap κ ν).get? k = none := rfl

theorem get?_setEntry : ∀ es : List (κ × ν),
    ((setEntry k v es).find? (fun e => e.1 = l)).map Prod.snd =
      if l = k then some v else (es.find? (fun e => e.1 = l)).map Prod.snd
  | [] => by
    by_cases h : k = l
    · simp [setEntry, h]
    · have h' : ¬ l = k := fun h' => h h'.symm
      simp [setEntry, h, h']
  | e :: es => by
    unfold setEntry
    by_cases he : e.1 = k
    · by_cases hl : l = k
      · simp [he, hl]
      · have hkl : ¬ k = l := fun h => hl h.symm
        simp [he, hl, hkl]
    · rw [if_neg he, List.find?_cons, List.find?_cons]
      by_cases hel : e.1 = l
      · have hl : ¬ l = k := fun h => he (hel.trans h)
        simp [hel, hl]
      · simp only [hel, decide_false]
        exact get?_setEntry es

theorem get?_set : (m.set k v).get? l = if l = k then some v else m.get? l := get?_setEntry m.entries

@[simp] theorem get?_set_self : (m.set k v).get? k = some v := by rw [get?_set, if_pos rfl]

theorem get?_set_ne (h : l ≠ k) : (m.set k v).get? l = m.get? l := by rw [get?_set, if_neg h]

theorem get?_eq_some : m.get? k = some v ↔ (k, v) ∈ m.entries := by
  unfold get?
  rw [Option.map_eq_some_iff]
  constructor
  · rintro ⟨⟨l, w⟩, h, rfl⟩
    have hk : l = k := by simpa using List.find?_some h
    exact hk ▸ List.mem_of_find?_eq_some h
  · intro h
    cases hf : m.entries.find? (fun e => decide (e.1 = k)) with
    | none =>
      have hnone := List.find?_eq_none.mp hf (k, v) h
      exact absurd (decide_eq_true rfl) hnone
    | some e =>
      have hk : e.1 = k := by simpa using List.find?_some hf
      have he : e = (k, v) := List.inj_on_of_nodup_map m.nodup (List.mem_of_find?_eq_some hf) h hk
      exact ⟨e, rfl, by rw [he]⟩

theorem get?_eq_none : m.get? k = none ↔ k ∉ m.keys := by
  unfold get? keys
  rw [Option.map_eq_none_iff, List.find?_eq_none, List.mem_map]
  constructor
  · rintro h ⟨e, he, rfl⟩
    exact h e he (decide_eq_true rfl)
  · exact fun h e he hk => h ⟨e, he, of_decide_eq_true hk⟩

theorem mem_keys_set : l ∈ (m.set k v).keys ↔ l = k ∨ l ∈ m.keys := by
  show l ∈ (setEntry k v m.entries).map Prod.fst ↔ l = k ∨ l ∈ m.entries.map Prod.fst
  rw [keys_setEntry]
  split_ifs with h
  · exact ⟨Or.inr, fun hl => hl.elim (fun hl => hl ▸ h) id⟩
  · rw [List.mem_append, List.mem_singleton]
    exact or_comm

/-- Setting a key that is there keeps the keys. -/
theorem keys_set_of_mem (h : k ∈ m.keys) : (m.set k v).keys = m.keys := by
  show (setEntry k v m.entries).map Prod.fst = m.entries.map Prod.fst
  rw [keys_setEntry]
  exact if_pos h

theorem setEntry_of_find? : ∀ {es : List (κ × ν)}, (es.find? (fun e => e.1 = k)).map Prod.snd = some v → setEntry k v es = es
  | [], h => nomatch h
  | e :: es, h => by
    unfold setEntry
    by_cases he : e.1 = k
    · rw [List.find?_cons_of_pos (by simpa using he)] at h
      rw [if_pos he, ← he, ← Option.some.inj h]
    · rw [List.find?_cons_of_neg (by simpa using he)] at h
      rw [if_neg he, setEntry_of_find? h]

/-- Setting a key to what it has changes nothing. -/
theorem set_of_get? (h : m.get? k = some v) : m.set k v = m := by
  obtain ⟨entries, nodup⟩ := m
  simp only [set, setEntry_of_find? h]

/-- The entries of a map are told by its keys, in their order, and what it has for them. -/
theorem entries_eq {f : κ → ν} (h : ∀ k ∈ m.keys, m.get? k = some (f k)) : m.entries = m.keys.map (fun k => (k, f k)) := by
  unfold keys at h ⊢
  rw [List.map_map]
  conv_lhs => rw [← List.map_id m.entries]
  refine List.map_congr_left (fun e he => ?_)
  have hget : m.get? e.1 = some e.2 := get?_eq_some.mpr he
  have hvalue := h e.1 (List.mem_map_of_mem he)
  rw [hget] at hvalue
  exact Prod.ext rfl (Option.some.inj hvalue)

/-- Maps that have the same have the same entries, in some order. -/
theorem entries_perm {m' : OrderedMap κ ν} (h : ∀ k, m.get? k = m'.get? k) : m.entries.Perm m'.entries := by
  rw [List.perm_ext_iff_of_nodup (List.Nodup.of_map _ m.nodup) (List.Nodup.of_map _ m'.nodup)]
  intro e
  rw [← get?_eq_some, ← get?_eq_some, h]

/-! ## Sums -/

variable [AddCommMonoid M] {f : κ → ν → M}

theorem sum_setEntry : ∀ es : List (κ × ν),
    ((setEntry k v es).map (fun e => f e.1 e.2)).sum + (((es.find? (fun e => e.1 = k)).map Prod.snd).elim 0 (f k)) =
      (es.map (fun e => f e.1 e.2)).sum + f k v
  | [] => by simp [setEntry]
  | e :: es => by
    unfold setEntry
    by_cases h : e.1 = k
    · subst h
      simp [add_comm, add_left_comm]
    · rw [if_neg h, List.find?_cons]
      simp only [h, decide_false, List.map_cons, List.sum_cons]
      rw [add_assoc, sum_setEntry es, ← add_assoc]

/-- Setting a key changes a sum by the new value and the old. -/
theorem sum_set : ((m.set k v).entries.map (fun e => f e.1 e.2)).sum + (m.get? k).elim 0 (f k) =
    (m.entries.map (fun e => f e.1 e.2)).sum + f k v := sum_setEntry m.entries

/-! ## Maps of lists -/

theorem get?_foldl_set : ∀ (es : List (κ × ν)) (m : OrderedMap κ ν), (es.map Prod.fst).Nodup →
    ∀ {k v}, (k, v) ∈ es → (es.foldl (fun m e => m.set e.1 e.2) m).get? k = some v
  | [], _, _, _, _, h => absurd h List.not_mem_nil
  | e :: es, m, hn, k, v, h => by
    obtain ⟨hnot, hn⟩ := List.nodup_cons.mp hn
    rw [List.foldl_cons]
    rcases List.mem_cons.mp h with rfl | h
    · have hkeep : ∀ (es : List (κ × ν)) (m : OrderedMap κ ν), k ∉ es.map Prod.fst → m.get? k = some v →
          (es.foldl (fun m e => m.set e.1 e.2) m).get? k = some v := by
        intro es
        induction es with
        | nil => exact fun m _ hm => hm
        | cons e es ih =>
          intro m hk hm
          have hne : k ≠ e.1 := fun h => hk (h ▸ List.mem_cons_self)
          exact ih _ (fun h => hk (List.mem_cons_of_mem _ h)) ((get?_set_ne hne).trans hm)
      exact hkeep es _ hnot get?_set_self
    · exact get?_foldl_set es _ hn h

theorem mem_keys_foldl_set : ∀ (es : List (κ × ν)) (m : OrderedMap κ ν),
    k ∈ (es.foldl (fun m e => m.set e.1 e.2) m).keys ↔ k ∈ m.keys ∨ k ∈ es.map Prod.fst
  | [], m => by simp
  | e :: es, m => by
    rw [List.foldl_cons, mem_keys_foldl_set es, mem_keys_set, List.map_cons, List.mem_cons]
    tauto

theorem keys_foldl_set : ∀ (es : List (κ × ν)) (m : OrderedMap κ ν), (es.map Prod.fst).Nodup →
    (∀ e ∈ es, e.1 ∉ m.keys) → (es.foldl (fun m e => m.set e.1 e.2) m).keys = m.keys ++ es.map Prod.fst
  | [], m, _, _ => by simp
  | e :: es, m, hn, hm => by
    obtain ⟨hnot, hn⟩ := List.nodup_cons.mp hn
    have hkeys : (m.set e.1 e.2).keys = m.keys ++ [e.1] := by
      show (setEntry e.1 e.2 m.entries).map Prod.fst = _
      rw [keys_setEntry]
      exact if_neg (hm e List.mem_cons_self)
    have hnew : ∀ x ∈ es, x.1 ∉ (m.set e.1 e.2).keys := by
      intro x hx hin
      rcases mem_keys_set.mp hin with hxe | hin
      · exact hnot (hxe ▸ List.mem_map_of_mem hx)
      · exact hm x (List.mem_cons_of_mem _ hx) hin
    rw [List.foldl_cons, keys_foldl_set es _ hn hnew, hkeys, List.map_cons, List.append_assoc]
    rfl

theorem keys_ofList {es : List (κ × ν)} (h : (es.map Prod.fst).Nodup) : (ofList es).keys = es.map Prod.fst :=
  keys_foldl_set es empty h (fun _ _ => List.not_mem_nil)

/-- A list of entries with distinct keys, as a map. -/
theorem get?_ofList {es : List (κ × ν)} (h : (es.map Prod.fst).Nodup) : (ofList es).get? k = some v ↔ (k, v) ∈ es := by
  constructor
  · intro hget
    have hmem : k ∈ (ofList es).keys := by
      by_contra hnot
      rw [get?_eq_none.mpr hnot] at hget
      cases hget
    rcases (mem_keys_foldl_set es empty).mp hmem with hnil | hmem
    · exact absurd hnil List.not_mem_nil
    · obtain ⟨⟨l, w⟩, he, rfl⟩ := List.mem_map.mp hmem
      have hw := get?_foldl_set es empty h he
      rw [show (ofList es).get? l = some w from hw] at hget
      exact Option.some.inj hget ▸ he
  · exact get?_foldl_set es empty h

theorem get?_ofList_eq_none {es : List (κ × ν)} : (ofList es).get? k = none ↔ k ∉ es.map Prod.fst := by
  rw [get?_eq_none]
  have hkeys := mem_keys_foldl_set (k := k) es empty
  rw [show (ofList es).keys = (es.foldl (fun m e => m.set e.1 e.2) empty).keys from rfl, hkeys]
  exact not_congr (or_iff_right List.not_mem_nil)

end OrderedMap

end EasyDocket
