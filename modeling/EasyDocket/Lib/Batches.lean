import Mathlib.Order.Bounds.Basic
import Mathlib.Data.List.Basic
import Mathlib.Tactic.Common

/-!
# Batches of an increasing list

A strictly increasing list is asked for in batches, each past the last element of the one before it.  What is past the last
element of a prefix is the rest of the list, so the batches make up the list, one after the other.
-/

namespace EasyDocket

namespace Batches

variable {α ε : Type} [LinearOrder α] {l : List α} {k n : ℕ}

/-- What of a list is past a point, or all of it. -/
def past (l : List α) : Option α → List α
  | none => l
  | some a => l.filter (fun x => a < x)

theorem filter_gt_append {l₁ l₂ : List α} {a : α} (h₁ : ∀ x ∈ l₁, x ≤ a) (h₂ : ∀ x ∈ l₂, a < x) :
    (l₁ ++ l₂).filter (fun x => a < x) = l₂ := by
  have hnone : l₁.filter (fun x => decide (a < x)) = [] :=
    List.filter_eq_nil_iff.mpr (fun x hx hlt => absurd (of_decide_eq_true hlt) (not_lt.mpr (h₁ x hx)))
  have hall : l₂.filter (fun x => decide (a < x)) = l₂ :=
    List.filter_eq_self.mpr (fun x hx => decide_eq_true (h₂ x hx))
  rw [List.filter_append, hnone, hall, List.nil_append]

/-- The last element of an increasing list is its greatest. -/
theorem le_getLast? (hl : l.Pairwise (· < ·)) {last : α} (h : l.getLast? = some last) : ∀ x ∈ l, x ≤ last := by
  obtain ⟨m, rfl⟩ := List.getLast?_eq_some_iff.mp h
  intro x hx
  rcases List.mem_append.mp hx with hx | hx
  · exact le_of_lt ((List.pairwise_append.mp hl).2.2 x hx last (List.mem_singleton.mpr rfl))
  · exact le_of_eq (List.mem_singleton.mp hx)

/-- What is past the last element of a prefix is the rest. -/
theorem past_getLast?_take (hl : l.Pairwise (· < ·)) (n : ℕ) : past l (l.take n).getLast? = l.drop n := by
  have hsplit := hl
  rw [← List.take_append_drop n l] at hsplit
  obtain ⟨htake, -, hcross⟩ := List.pairwise_append.mp hsplit
  cases hlast : (l.take n).getLast? with
  | none =>
    have hnil := List.getLast?_eq_none_iff.mp hlast
    show l = l.drop n
    conv_lhs => rw [← List.take_append_drop n l, hnil]
    rfl
  | some last =>
    show l.filter _ = l.drop n
    conv_lhs => rw [← List.take_append_drop n l]
    exact filter_gt_append (le_getLast? htake hlast) (fun x hx => hcross last (List.mem_of_getLast? hlast) x hx)

theorem past_pairwise (hl : l.Pairwise (· < ·)) (after : Option α) : (past l after).Pairwise (· < ·) := by
  cases after with
  | none => exact hl
  | some a => exact hl.filter _

theorem mem_past {a x : α} : x ∈ past l (some a) ↔ x ∈ l ∧ a < x := by
  show x ∈ l.filter _ ↔ _
  rw [List.mem_filter, decide_eq_true_iff]

theorem mem_of_mem_past {after : Option α} {x : α} (h : x ∈ past l after) : x ∈ l := by
  cases after with
  | none => exact h
  | some a => exact List.mem_of_mem_filter h

/-- What is past the next element is all but that one. -/
theorem past_next (hl : l.Pairwise (· < ·)) {a next : α} {rest : List α} (h : past l (some a) = next :: rest) :
    past l (some next) = rest := by
  have hmem : next ∈ past l (some a) := h ▸ List.mem_cons_self
  have hnext : a < next := (mem_past.mp hmem).2
  have hsub : past l (some next) = (past l (some a)).filter (fun x => next < x) := by
    show l.filter _ = (l.filter _).filter _
    rw [List.filter_filter]
    refine List.filter_congr (fun x _ => ?_)
    by_cases hx : next < x
    · rw [decide_eq_true hx, decide_eq_true (hnext.trans hx)]
      rfl
    · rw [decide_eq_false hx]
      rfl
  have hsorted := past_pairwise hl (some a)
  rw [h] at hsorted
  rw [hsub, h]
  refine @filter_gt_append _ _ [next] rest next (fun x hx => le_of_eq (List.mem_singleton.mp hx)) (fun x hx => ?_)
  exact (List.pairwise_cons.mp hsorted).1 x hx

/-- The first element of an increasing list is its least one. -/
theorem head?_iff_isLeast (hl : l.Pairwise (· < ·)) {a : α} : l.head? = some a ↔ IsLeast {x | x ∈ l} a := by
  cases l with
  | nil => exact iff_of_false (fun h => nomatch h) (fun h => absurd h.1 List.not_mem_nil)
  | cons b l =>
    have hle : ∀ x ∈ b :: l, b ≤ x := by
      intro x hx
      rcases List.mem_cons.mp hx with rfl | hx
      · exact le_refl _
      · exact le_of_lt ((List.pairwise_cons.mp hl).1 x hx)
    constructor
    · intro h
      cases h
      exact ⟨List.mem_cons_self, hle⟩
    · rintro ⟨hmem, hleast⟩
      exact congrArg some (le_antisymm (hle a hmem) (hleast List.mem_cons_self))

/-- What is no greater than one of the first is one of the first. -/
theorem mem_take_of_le (hl : l.Pairwise (· < ·)) {a b : α} (ha : a ∈ l) (hb : b ∈ l.take k) (hle : a ≤ b) : a ∈ l.take k := by
  rw [← List.take_append_drop k l] at ha hl
  rcases List.mem_append.mp ha with ha | ha
  · exact ha
  · exact absurd ((List.pairwise_append.mp hl).2.2 b hb a ha) (not_lt.mpr hle)

omit [LinearOrder α] in
/-- A batch that is not empty ends where the longer prefix ends. -/
theorem getLast?_batch {last : α} (h : ((l.drop n).take k).getLast? = some last) :
    (l.take (n + k)).getLast? = some last := by
  rw [List.take_add, List.getLast?_append, h]
  rfl

/-- Batches that are asked for until one is empty; `fuel` bounds their number. -/
def batches (ask : Option α → Except ε (List α)) : ℕ → Option α → Except ε (Option (List (List α)))
  | 0, _ => pure none
  | fuel + 1, after => do
    let batch ← ask after
    match batch.getLast? with
    | none => pure (some [[]])
    | some last => do
      let rest ← batches ask fuel (some last)
      pure (rest.map (fun others => batch :: others))

section Calls

variable {ask : Option α → Except ε (List α)} {fuel : ℕ} {after : Option α}

omit [LinearOrder α] in
theorem batches_stop (h : ask after = .ok []) : batches ask (fuel + 1) after = .ok (some [[]]) := by
  unfold batches
  rw [h]
  rfl

omit [LinearOrder α] in
theorem batches_step {batch : List α} {last : α} {rest : List (List α)} (h : ask after = .ok batch)
    (hlast : batch.getLast? = some last) (hrest : batches ask fuel (some last) = .ok (some rest)) :
    batches ask (fuel + 1) after = .ok (some (batch :: rest)) := by
  unfold batches
  rw [h]
  show (match batch.getLast? with
    | none => _
    | some last => _) = _
  rw [hlast]
  show (do let rest ← batches ask fuel (some last); _) = _
  rw [hrest]
  rfl

omit [LinearOrder α] in
/-- Every batch was asked for. -/
theorem mem_batches : ∀ {fuel : ℕ} {after : Option α} {made : List (List α)}, batches ask fuel after = .ok (some made) →
    ∀ batch ∈ made, ∃ after', ask after' = .ok batch
  | 0, _, _, h, _, _ => by cases h
  | fuel + 1, after, made, h, batch, hbatch => by
    unfold batches at h
    cases hask : ask after with
    | error e =>
      rw [hask] at h
      cases h
    | ok first =>
      rw [hask] at h
      change (match first.getLast? with
        | none => _
        | some last => _) = _ at h
      cases hlast : first.getLast? with
      | none =>
        rw [hlast] at h
        cases h
        obtain rfl := List.mem_singleton.mp hbatch
        exact ⟨after, hask.trans (congrArg _ (List.getLast?_eq_none_iff.mp hlast))⟩
      | some last =>
        rw [hlast] at h
        change (do let rest ← batches ask fuel (some last); _) = _ at h
        cases hrest : batches ask fuel (some last) with
        | error e =>
          rw [hrest] at h
          cases h
        | ok rest =>
          rw [hrest] at h
          cases rest with
          | none => cases h
          | some rest =>
            cases h
            rcases List.mem_cons.mp hbatch with rfl | hbatch
            · exact ⟨after, hask⟩
            · exact mem_batches hrest batch hbatch

/-- The batches of an increasing list, by induction on their bound. -/
theorem batches_eq (hl : l.Pairwise (· < ·)) (hk : 1 ≤ k) (hask : ∀ after, ask after = .ok ((past l after).take k)) :
    ∀ (fuel n : ℕ), l.length - n < fuel →
    ∃ made : List (List α), batches ask fuel (l.take n).getLast? = .ok (some (made ++ [[]])) ∧
      made.flatten = l.drop n ∧ ∀ batch ∈ made, batch ≠ [] ∧ batch.length ≤ k
  | 0, n, h => absurd h (Nat.not_lt_zero _)
  | fuel + 1, n, h => by
    have hbatch : ask (l.take n).getLast? = .ok ((l.drop n).take k) := by rw [hask, past_getLast?_take hl]
    cases hlast : ((l.drop n).take k).getLast? with
    | none =>
      have hnil := List.getLast?_eq_none_iff.mp hlast
      have hrest : l.drop n = [] := by
        rcases List.take_eq_nil_iff.mp hnil with hzero | hnil
        · omega
        · exact hnil
      rw [hnil] at hbatch
      exact ⟨[], batches_stop hbatch, hrest.symm, fun batch hb => absurd hb List.not_mem_nil⟩
    | some last =>
      have hne : (l.drop n).take k ≠ [] := by
        intro hnil
        rw [hnil] at hlast
        cases hlast
      have hlong : n < l.length := Nat.lt_of_not_le (fun hle => hne (by rw [List.drop_eq_nil_of_le hle, List.take_nil]))
      obtain ⟨made, hmade, hflat, heach⟩ := batches_eq hl hk hask fuel (n + k) (by omega)
      rw [getLast?_batch hlast] at hmade
      refine ⟨(l.drop n).take k :: made, batches_step hbatch hlast hmade, ?_, fun batch hb => ?_⟩
      · rw [List.flatten_cons, hflat, ← List.drop_drop, List.take_append_drop]
      · rcases List.mem_cons.mp hb with rfl | hb
        · exact ⟨hne, List.length_take_le _ _⟩
        · exact heach batch hb

end Calls

end Batches

end EasyDocket
