import Mathlib.Data.List.MinMax
import Mathlib.Order.Lattice
import Mathlib.Tactic.Common

/-!
# Last writer wins

Writes carry a stamp and a key.  The state of a key is decided by its newest write: of a list of writes, by the fold.
-/

namespace EasyDocket

namespace Lww

variable {α σ κ ν : Type} [LinearOrder σ] {stamp : α → σ} {key : α → κ}

/-- `a` is a newest write of its key among the writes `W`. -/
def Newest (stamp : α → σ) (key : α → κ) (W : α → Prop) (a : α) : Prop :=
  W a ∧ ∀ b, W b → key b = key a → stamp b ≤ stamp a

/-! ## The fold -/

variable [DecidableEq κ]

/-- The value the newest write of a key leaves, among the writes of a list. -/
def fold (stamp : α → σ) (key : α → κ) (val : α → Option ν) (l : List α) (k : κ) : Option ν :=
  ((l.filter (fun a => key a = k)).argmax stamp).bind val

variable {val : α → Option ν} {l l' : List α} {k : κ}

theorem fold_eq_none (h : ∀ a ∈ l, key a ≠ k) : fold stamp key val l k = none := by
  unfold fold
  rw [List.filter_eq_nil_iff.mpr (fun a ha => by simpa using h a ha)]
  rfl

/-- The fold at the key of a newest write, when writes with equal stamps leave equal values. -/
theorem fold_eq {a : α} (ha : Newest stamp key (· ∈ l) a)
    (huniq : ∀ b ∈ l, key b = key a → stamp b = stamp a → val b = val a) :
    fold stamp key val l (key a) = val a := by
  unfold fold
  have hmem : a ∈ l.filter (fun b => key b = key a) := by simp [ha.1]
  cases hm : (l.filter (fun b => key b = key a)).argmax stamp with
  | none => rw [List.argmax_eq_none] at hm; rw [hm] at hmem; exact absurd hmem List.not_mem_nil
  | some b =>
    have hb := List.argmax_mem hm
    have hle := List.le_of_mem_argmax hmem hm
    rw [List.mem_filter] at hb
    have hkey : key b = key a := by simpa using hb.2
    exact huniq b hb.1 hkey (le_antisymm (ha.2 b hb.1 hkey) hle)

/-- Every key with a write has a newest one. -/
theorem exists_newest {a : α} (ha : a ∈ l) : ∃ b, key b = key a ∧ Newest stamp key (· ∈ l) b := by
  have hmem : a ∈ l.filter (fun b => key b = key a) := by simp [ha]
  cases hm : (l.filter (fun b => key b = key a)).argmax stamp with
  | none => rw [List.argmax_eq_none] at hm; rw [hm] at hmem; exact absurd hmem List.not_mem_nil
  | some b =>
    have hb := List.mem_filter.mp (List.argmax_mem hm)
    have hkey : key b = key a := by simpa using hb.2
    refine ⟨b, hkey, hb.1, fun c hc hk => ?_⟩
    exact List.le_of_mem_argmax (List.mem_filter.mpr ⟨hc, by simpa using hk.trans hkey⟩) hm

end Lww

end EasyDocket
