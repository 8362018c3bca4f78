import Mathlib.Order.Monotone.Basic
import Mathlib.Order.Basic
import Mathlib.Order.WellFounded
import Mathlib.Tactic.Common

/-!
# Blocks that tile an order

A strictly increasing sequence of starts cuts the order from its first start on into blocks: block `i` goes from `f i` to
just before `f (i + 1)`.  Every point has its block, and only one; it is found by a search from any block before it.
-/

namespace EasyDocket

namespace Tiling

variable {T : Type} [LinearOrder T] {f : ℕ → T} {p q : T} {i j n : ℕ}

/-- The point `p` is in block `i`. -/
structure InBlock (f : ℕ → T) (i : ℕ) (p : T) : Prop where
  start : f i ≤ p
  stop : p < f (i + 1)

theorem InBlock.le_of_le (hf : StrictMono f) (hp : InBlock f i p) (hq : InBlock f j q) (h : p ≤ q) : i ≤ j := by
  by_contra hlt
  have hij : f (j + 1) ≤ f i := hf.monotone (not_le.mp hlt)
  exact absurd (lt_of_lt_of_le hq.stop (hij.trans (hp.start.trans h))) (lt_irrefl q)

/-- A point is in one block only. -/
theorem InBlock.unique (hf : StrictMono f) (hp : InBlock f i p) (hq : InBlock f j p) : i = j :=
  Nat.le_antisymm (hp.le_of_le hf hq (le_refl p)) (hq.le_of_le hf hp (le_refl p))

/-- A point between two starts is in a block between them, by induction on the second. -/
theorem exists_inBlock (h0 : f 0 ≤ p) : ∀ {n : ℕ}, p < f n → ∃ i < n, InBlock f i p
  | 0, hn => absurd hn (not_lt.mpr h0)
  | n + 1, hn => by
    by_cases h : p < f n
    · obtain ⟨i, hi, hblock⟩ := exists_inBlock h0 h
      exact ⟨i, Nat.lt_succ_of_lt hi, hblock⟩
    · exact ⟨n, Nat.lt_succ_self n, not_lt.mp h, hn⟩

/-- Blocks of numbers reach every number. -/
theorem exists_inBlock_nat {f : ℕ → ℕ} {p : ℕ} (hf : StrictMono f) (h0 : f 0 ≤ p) : ∃ i, InBlock f i p := by
  have hlast : p < f (p + 1) := lt_of_lt_of_le (Nat.lt_succ_self p) hf.le_apply
  obtain ⟨i, -, hi⟩ := exists_inBlock h0 hlast
  exact ⟨i, hi⟩

/-- A start is at most a point if and only if its block is not after the one of the point. -/
theorem InBlock.start_le_iff (hf : StrictMono f) (hp : InBlock f i p) : f j ≤ p ↔ j ≤ i := by
  refine ⟨fun h => ?_, fun h => (hf.monotone h).trans hp.start⟩
  by_contra hlt
  exact absurd (lt_of_lt_of_le hp.stop ((hf.monotone (not_le.mp hlt)).trans h)) (lt_irrefl p)

/-- The first block from `i` on whose end is past the point. -/
def seek (f : ℕ → T) (p : T) : ℕ → ℕ → ℕ
  | 0, i => i
  | fuel + 1, i => if p < f (i + 1) then i else seek f p fuel (i + 1)

/-- The search finds the block of a point, from any block before it. -/
theorem seek_eq (hf : StrictMono f) (hp : InBlock f j p) : ∀ {fuel i : ℕ}, i ≤ j → j < i + fuel → seek f p fuel i = j
  | 0, i, hle, hlt => absurd hlt (not_lt.mpr hle)
  | fuel + 1, i, hle, hlt => by
    unfold seek
    by_cases h : p < f (i + 1)
    · rw [if_pos h]
      have hji : ¬ i + 1 ≤ j := fun hle' => absurd (lt_of_lt_of_le h (hf.monotone hle')) (not_lt.mpr hp.start)
      exact Nat.le_antisymm hle (Nat.le_of_not_lt hji)
    · rw [if_neg h]
      have hne : i ≠ j := by
        rintro rfl
        exact h hp.stop
      exact seek_eq hf hp (by omega) (by omega)

end Tiling

end EasyDocket
